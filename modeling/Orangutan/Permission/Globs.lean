import Orangutan.Lib.Globs
import Orangutan.Permission.RuleSet

/-!
# Tool patterns

`glob_match` remembers only the last star. It accepts a tool name exactly if the stars of the
pattern can be filled so that the pattern becomes the name.
-/

namespace Orangutan.Permission

set_option autoImplicit false

open Orangutan.Core Lib

def starByte : UInt8 := 0x2a

/-- What the loop keeps of the last star: the pattern after it and the text from where it gave up.
-/
def lastStar (pattern text : Bytes) (star : Option Nat) (mark : Nat) : Option (Bytes × Bytes) :=
  star.map fun s => (pattern.drop (s + 1), text.drop mark)

/-- The position the loop ends at leaves only stars of the pattern. -/
def endsAtStars (pattern : Bytes) : Option Nat → Prop
  | none => False
  | some pi => Glob starByte (pattern.drop pi) []

theorem drop_of_getElem? {α : Type} {l : List α} {i : Nat} {a : α} (h : l[i]? = some a) :
    l.drop i = a :: l.drop (i + 1) := by
  rw [List.drop_eq_getElem?_toList_append, h]
  rfl

/-- The second branch of the loop is refused. -/
theorem head_ne_of_refused {pattern text : Bytes} {pi ti : Nat} (hti : ti < text.length)
    (h : ¬ (pi < pattern.length ∧ pattern[pi]? = text[ti]?)) : (pattern.drop pi).head? ≠
      some text[ti] := by
  rw [List.head?_drop]
  intro hletter
  refine h ⟨?_, by rw [hletter, List.getElem?_eq_getElem hti]⟩
  by_contra hge
  rw [List.getElem?_eq_none (not_lt.mp hge)] at hletter
  cases hletter

theorem globLoop_iff (pattern text : Bytes) (pi ti : Nat) (star : Option Nat) (mark : Nat)
    (h : mark ≤ ti)
    (hmet : GlobMet starByte (pattern.drop pi) (text.drop ti) (lastStar pattern text star mark)) :
    endsAtStars pattern (globLoop pattern text pi ti star mark h) ↔
      GlobFrom starByte (pattern.drop pi) (text.drop ti) (lastStar pattern text star mark) := by
  fun_induction globLoop pattern text pi ti star mark h with
  | case1 pi ti star mark h hti hstar ih =>
    have hdrop : pattern.drop pi = starByte :: pattern.drop (pi + 1) := drop_of_getElem? hstar
    rw [hdrop] at hmet ⊢
    rw [globFrom_star hmet]
    exact ih (globMet_star _ _)
  | case2 pi ti star mark h hti hstar hsame ih =>
    obtain ⟨c, hc⟩ : ∃ c, pattern[pi]? = some c := ⟨_, List.getElem?_eq_getElem hsame.1⟩
    have hne : c ≠ starByte := by
      rintro rfl
      exact hstar hc
    have hpattern : pattern.drop pi = c :: pattern.drop (pi + 1) := drop_of_getElem? hc
    have htext : text.drop ti = c :: text.drop (ti + 1) := drop_of_getElem? (hsame.2.symm.trans hc)
    rw [hpattern, htext] at hmet ⊢
    rw [globFrom_letter hne]
    exact ih (hmet.letter hne)
  | case3 pi ti mark h hti hstar hsame s ih =>
    have hhead : (pattern.drop pi).head? ≠ some starByte := List.head?_drop ▸ hstar
    rw [List.drop_eq_getElem_cons hti] at hmet ⊢
    refine Iff.trans ?_ (globFrom_retry hmet hhead (head_ne_of_refused hti hsame)).symm
    rw [List.drop_drop]
    exact ih (globMet_star _ _)
  | case4 pi ti mark h hti hstar hsame =>
    have hhead : (pattern.drop pi).head? ≠ some starByte := List.head?_drop ▸ hstar
    rw [List.drop_eq_getElem_cons hti]
    exact ⟨fun hfalse => hfalse.elim, fun hglob =>
      absurd hglob (not_glob_of_mismatch hhead (head_ne_of_refused hti hsame))⟩
  | case5 pi ti star mark h hti =>
    rw [List.drop_eq_nil_of_le (not_lt.mp hti)] at hmet ⊢
    exact (globFrom_end hmet).symm

/-- A tool pattern accepts exactly the names it becomes when its stars are filled. -/
theorem globMatch_iff_fills (pattern name : Bytes) :
    globMatch pattern name = true ↔
      ∃ fills : List Bytes, fills.length = pattern.count starByte ∧
        fillStars starByte pattern fills = name := by
  have hloop := globLoop_iff pattern name 0 0 none 0 (Nat.le_refl 0) trivial
  rw [← Glob.iff_fills]
  refine Iff.trans ?_ hloop
  unfold globMatch
  split
  · next hnone =>
    rw [hnone]
    exact ⟨fun hfalse => (by cases hfalse), fun hfalse => hfalse.elim⟩
  · next pi hsome =>
    rw [hsome, beq_iff_eq]
    exact (Glob.empty_iff _).symm

end Orangutan.Permission
