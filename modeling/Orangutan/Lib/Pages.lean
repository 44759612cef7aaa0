import Mathlib

/-!
# Reading a list in pages

A page shows a part of a list behind an offset and names the offset of the next page, if there is
more. Whoever follows the offsets from the front has read the whole list, each element once and in
order.
-/

namespace Orangutan.Lib

set_option autoImplicit false

variable {α π : Type}

structure PageOf (rows : List α) (offset : Nat) (part : List α) (next : Option Nat) : Prop where
  starts : part <+: rows.drop offset
  last : next = none → part = rows.drop offset
  more : ∀ n, next = some n → n = offset + part.length ∧ part ≠ []

/-- Pages one after the other, up to the last one. -/
inductive Walk (page : Nat → Option Nat → π → Prop) : Nat → List π → Prop
  | last {offset : Nat} {p : π} (h : page offset none p) : Walk page offset [p]
  | more {offset next : Nat} {p : π} {rest : List π} (h : page offset (some next) p)
      (hrest : Walk page next rest) :
      Walk page offset (p :: rest)

section Walk

variable {rows : List α} {page : Nat → Option Nat → π → Prop} {shows : List α → π → Prop}

theorem PageOf.drop_next {offset next : Nat} {part : List α}
    (h : PageOf rows offset part (some next)) :
    rows.drop offset = part ++ rows.drop next := by
  obtain ⟨rest, hrest⟩ := h.starts
  obtain ⟨rfl, -⟩ := h.more next rfl
  rw [← List.drop_drop, ← hrest, List.drop_left]

theorem Walk.covers (hpage : ∀ offset next p, page offset next p → ∃ part,
    PageOf rows offset part next ∧ shows part p) {offset : Nat} {pages : List π} (h :
    Walk page offset pages) :
    ∃ parts, List.Forall₂ shows parts pages ∧ parts.flatten = rows.drop offset := by
  induction h with
  | last h =>
    obtain ⟨part, hpart, hshows⟩ := hpage _ _ _ h
    refine ⟨[part], .cons hshows .nil, ?_⟩
    rw [List.flatten_singleton]
    exact hpart.last rfl
  | more h _ ih =>
    obtain ⟨part, hpart, hshows⟩ := hpage _ _ _ h
    obtain ⟨parts, hparts, hflatten⟩ := ih
    refine ⟨part :: parts, .cons hshows hparts, ?_⟩
    rw [List.flatten_cons, hflatten, hpart.drop_next]

end Walk

section Lex

variable {β : Type} {f : α → β} {lt : β → β → Prop} {r : α → α → Prop}

/-- First by one feature, then by what is left. -/
def LexLe (f : α → β) (lt : β → β → Prop) (r : α → α → Prop) (a b : α) : Prop := lt (f a) (f b) ∨
    f a = f b ∧ r a b

theorem LexLe.trans (hlt : ∀ x y z, lt x y → lt y z → lt x z) (hr : ∀ a b c, r a b → r b c → r a c)
    {a b c : α} (hab : LexLe f lt r a b) (hbc : LexLe f lt r b c) : LexLe f lt r a c := by
  rcases hab with hab | ⟨hab, hab'⟩
  · rcases hbc with hbc | ⟨hbc, -⟩
    · exact .inl (hlt _ _ _ hab hbc)
    · exact .inl (hbc ▸ hab)
  · rcases hbc with hbc | ⟨hbc, hbc'⟩
    · exact .inl (hab ▸ hbc)
    · exact .inr ⟨hab.trans hbc, hr _ _ _ hab' hbc'⟩

theorem LexLe.total (hlt : ∀ x y, lt x y ∨ x = y ∨ lt y x) (hr : ∀ a b, r a b ∨ r b a) (a b : α) :
    LexLe f lt r a b ∨ LexLe f lt r b a := by
  rcases hlt (f a) (f b) with h | h | h
  · exact .inl (.inl h)
  · rcases hr a b with h' | h'
    · exact .inl (.inr ⟨h, h'⟩)
    · exact .inr (.inr ⟨h.symm, h'⟩)
  · exact .inr (.inl h)

end Lex

end Orangutan.Lib
