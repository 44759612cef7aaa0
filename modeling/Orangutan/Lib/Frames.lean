import Mathlib.Data.List.Basic

/-!
# Framed encodings

An encoding is framed when it shows where it ends, whatever follows it. Framed encodings can be
written one after the other, and a list of them behind its length, and are read back from there.
-/

namespace Orangutan.Lib

set_option autoImplicit false

variable {α β γ σ : Type}

/-- Among the values that `fits` holds of, the encoding is known from any text it begins. -/
def Framed (fits : α → Prop) (enc : α → List σ) : Prop :=
  ∀ a b t u, fits a → fits b → enc a ++ t = enc b ++ u → a = b ∧ t = u

namespace Framed

variable {fits : α → Prop} {fits' : β → Prop} {enc : α → List σ} {enc' : β → List σ}

/-- One encoding behind another. -/
theorem append (h : Framed fits enc) (h' : Framed fits' enc') :
    Framed (fun p : α × β => fits p.1 ∧ fits' p.2) fun p => enc p.1 ++ enc' p.2 := by
  rintro ⟨a, a'⟩ ⟨b, b'⟩ t u ⟨ha, ha'⟩ ⟨hb, hb'⟩ heq
  rw [List.append_assoc, List.append_assoc] at heq
  obtain ⟨rfl, hrest⟩ := h a b _ _ ha hb heq
  obtain ⟨rfl, rfl⟩ := h' a' b' t u ha' hb' hrest
  exact ⟨rfl, rfl⟩

theorem flatMap (h : Framed fits enc) {as bs : List α} {t u : List σ}
    (hlength : as.length = bs.length) (has : ∀ a ∈ as, fits a) (hbs : ∀ b ∈ bs, fits b)
    (heq : as.flatMap enc ++ t = bs.flatMap enc ++ u) :
    as = bs ∧ t = u := by
  induction as generalizing bs with
  | nil =>
    obtain rfl := List.length_eq_zero_iff.mp hlength.symm
    exact ⟨rfl, heq⟩
  | cons a as ih =>
    obtain ⟨b, bs, rfl⟩ := List.exists_cons_of_length_eq_add_one hlength.symm
    rw [List.flatMap_cons, List.flatMap_cons, List.append_assoc, List.append_assoc] at heq
    obtain ⟨rfl, hrest⟩ := h a b _ _ (has a List.mem_cons_self) (hbs b List.mem_cons_self) heq
    obtain ⟨rfl, rfl⟩ := ih (Nat.succ.inj hlength) (fun a ha => has a (List.mem_cons_of_mem _ ha))
      (fun b hb => hbs b (List.mem_cons_of_mem _ hb)) hrest
    exact ⟨rfl, rfl⟩

/-- A list behind its length. -/
theorem list (h : Framed fits enc) {short : Nat → Prop} {size : Nat → List σ}
    (hsize : Framed short size) :
    Framed (fun as : List α => short as.length ∧ ∀ a ∈ as, fits a) fun as =>
      size as.length ++ as.flatMap enc := by
  rintro as bs t u ⟨hshort, has⟩ ⟨hshort', hbs⟩ heq
  rw [List.append_assoc, List.append_assoc] at heq
  obtain ⟨hlength, hrest⟩ := hsize _ _ _ _ hshort hshort' heq
  exact h.flatMap hlength has hbs hrest

end Framed

end Orangutan.Lib
