import Mathlib

/-!
# Patterns with stars

A pattern is a list in which one letter stands for any list. A text is an instance of the pattern
if the stars can be filled so that the pattern becomes the text. A matcher only has to remember the
last star it met: what lies between that star and the current position has no star.
-/

namespace Orangutan.Lib

set_option autoImplicit false

variable {α : Type} {star : α}

/-- The pattern with its stars replaced, first filling first. -/
def fillStars [DecidableEq α] (star : α) : List α → List (List α) → List α
  | [], _ => []
  | c :: p, fills => if c = star then fills.headD [] ++ fillStars star p fills.tail
      else c :: fillStars star p fills

/-- The text is the pattern with its stars filled. -/
inductive Glob (star : α) : List α → List α → Prop
  | nil : Glob star [] []
  | letter {c : α} {p t : List α} (hc : c ≠ star) (h : Glob star p t) : Glob star (c :: p) (c :: t)
  | star {p t : List α} (fill : List α) (h : Glob star p t) : Glob star (star :: p) (fill ++ t)

namespace Glob

theorem nil_iff (t : List α) : Glob star [] t ↔ t = [] := by
  constructor
  · intro h
    cases h
    rfl
  · rintro rfl
    exact .nil

theorem letter_iff {c : α} (hc : c ≠ star) (p t : List α) : Glob star (c :: p) t ↔ ∃ u, t = c :: u ∧
    Glob star p u := by
  constructor
  · intro h
    cases h with
    | letter _ h => exact ⟨_, rfl, h⟩
    | star => exact absurd rfl hc
  · rintro ⟨u, rfl, h⟩
    exact .letter hc h

/-- A star gives up at some place of the text. -/
theorem star_iff (p t : List α) : Glob star (star :: p) t ↔ ∃ k, Glob star p (t.drop k) := by
  constructor
  · intro h
    cases h with
    | letter hc => exact absurd rfl hc
    | star fill h => exact ⟨fill.length, by rwa [List.drop_left]⟩
  · rintro ⟨k, h⟩
    have hglob := Glob.star (t.take k) h
    rwa [List.take_append_drop] at hglob

theorem prefix_iff {q : List α} (hq : star ∉ q) (p t : List α) :
    Glob star (q ++ p) t ↔ ∃ u, t = q ++ u ∧ Glob star p u := by
  induction q generalizing t with
  | nil => simp
  | cons c q ih =>
    have hc : c ≠ star := fun he => hq (he ▸ List.mem_cons_self)
    have ih := ih fun hmem => hq (List.mem_cons_of_mem c hmem)
    rw [List.cons_append, letter_iff hc]
    constructor
    · rintro ⟨u, rfl, h⟩
      obtain ⟨v, rfl, hrest⟩ := (ih u).mp h
      exact ⟨v, rfl, hrest⟩
    · rintro ⟨v, rfl, h⟩
      exact ⟨q ++ v, rfl, (ih (q ++ v)).mpr ⟨v, rfl, h⟩⟩

section Fillings

variable [DecidableEq α]

/-- Only stars match the empty text. -/
theorem empty_iff (p : List α) : Glob star p [] ↔ p.dropWhile (· == star) = [] := by
  induction p with
  | nil => simp [nil_iff]
  | cons c p ih =>
    by_cases hc : c = star
    · subst hc
      simp [star_iff, ih]
    · rw [letter_iff hc, List.dropWhile_cons_of_neg (by simpa using hc)]
      simp

theorem exists_fills {p t : List α} (h : Glob star p t) :
    ∃ fills, fills.length = p.count star ∧ fillStars star p fills = t := by
  induction h with
  | nil => exact ⟨[], rfl, rfl⟩
  | @letter c p t hc _ ih =>
    obtain ⟨fills, hlen, rfl⟩ := ih
    exact ⟨fills, by rw [List.count_cons_of_ne hc, hlen], if_neg hc⟩
  | @star p t fill _ ih =>
    obtain ⟨fills, hlen, rfl⟩ := ih
    exact ⟨fill :: fills, by rw [List.count_cons_self, List.length_cons, hlen], if_pos rfl⟩

theorem of_fills (p : List α) (fills : List (List α)) : Glob star p (fillStars star p fills) := by
  induction p generalizing fills with
  | nil => exact .nil
  | cons c p ih =>
    by_cases hc : c = star
    · subst hc
      rw [fillStars, if_pos rfl]
      exact .star _ (ih fills.tail)
    · rw [fillStars, if_neg hc]
      exact .letter hc (ih fills)

theorem iff_fills (p t : List α) :
    Glob star p t ↔ ∃ fills, fills.length = p.count star ∧ fillStars star p fills = t := by
  constructor
  · exact exists_fills
  · rintro ⟨fills, -, rfl⟩
    exact of_fills p fills

end Fillings

end Glob

/-- What is left to find: the pattern in the text, or, once a star was met, the pattern after it in
some end of the text from where it stood. -/
def GlobFrom (star : α) (p t : List α) : Option (List α × List α) → Prop
  | none => Glob star p t
  | some (after, since) => ∃ k, Glob star after (since.drop k)

/-- The letters since the last star were found in the text. -/
def GlobMet (star : α) (p t : List α) : Option (List α × List α) → Prop
  | none => True
  | some (after, since) => ∃ q, star ∉ q ∧ after = q ++ p ∧ since = q ++ t

section LastStar

variable {p t after since : List α} {last : Option (List α × List α)} {c : α}

theorem globMet_star (p t : List α) : GlobMet star p t (some (p, t)) :=
    ⟨[], List.not_mem_nil, rfl, rfl⟩

theorem GlobMet.letter (h : GlobMet star (c :: p) (c :: t) last) (hc : c ≠ star) :
    GlobMet star p t last := by
  cases last with
  | none => trivial
  | some last =>
    obtain ⟨q, hq, hafter, hsince⟩ := h
    exact ⟨q ++ [c], by simp [hq, Ne.symm hc], by simp [hafter], by simp [hsince]⟩

/-- A further star takes over: what the stars before it leave to it, it can take itself. -/
theorem globFrom_star (h : GlobMet star (star :: p) t last) :
    GlobFrom star (star :: p) t last ↔ GlobFrom star p t (some (p, t)) := by
  cases last with
  | none => exact Glob.star_iff p t
  | some last =>
    obtain ⟨after, since⟩ := last
    obtain ⟨q, hq, rfl, rfl⟩ := h
    constructor
    · rintro ⟨k, hk⟩
      obtain ⟨u, hu, hglob⟩ := (Glob.prefix_iff hq _ _).mp hk
      obtain ⟨j, hj⟩ := (Glob.star_iff p u).mp hglob
      have hdrop : u = t.drop k := by
        have hlen := congrArg (List.drop q.length) hu
        rw [List.drop_left, List.drop_drop, Nat.add_comm, ← List.drop_drop, List.drop_left] at hlen
        exact hlen.symm
      rw [hdrop, List.drop_drop] at hj
      exact ⟨_, hj⟩
    · rintro ⟨k, hk⟩
      exact ⟨0, (Glob.prefix_iff hq _ _).mpr ⟨t, rfl, (Glob.star_iff p t).mpr ⟨k, hk⟩⟩⟩

theorem globFrom_letter (hc : c ≠ star) : GlobFrom star (c :: p) (c :: t) last ↔
    GlobFrom star p t last := by
  cases last with
  | some last => exact Iff.rfl
  | none =>
    change Glob star (c :: p) (c :: t) ↔ Glob star p t
    rw [Glob.letter_iff hc]
    simp

/-- The pattern neither goes on with a star nor with the next letter of the text. -/
theorem not_glob_of_mismatch (hstar : p.head? ≠ some star) (hletter : p.head? ≠ some c) :
    ¬ Glob star p (c :: t) := by
  generalize hu : c :: t = u
  intro h
  cases h with
  | nil => cases hu
  | letter =>
    obtain rfl := (List.cons.inj hu).1
    exact hletter rfl
  | star => exact hstar rfl

/-- The last star tries one place further. -/
theorem globFrom_retry (h : GlobMet star p (c :: t) (some (after, since)))
    (hstar : p.head? ≠ some star) (hletter : p.head? ≠ some c) :
    GlobFrom star p (c :: t) (some (after, since)) ↔
      GlobFrom star after (since.drop 1) (some (after, since.drop 1)) := by
  obtain ⟨q, hq, rfl, rfl⟩ := h
  constructor
  · rintro ⟨k, hk⟩
    cases k with
    | zero =>
      obtain ⟨u, hu, hglob⟩ := (Glob.prefix_iff hq _ _).mp hk
      obtain rfl := List.append_cancel_left hu
      exact absurd hglob (not_glob_of_mismatch hstar hletter)
    | succ k => exact ⟨k, by rwa [List.drop_drop, Nat.add_comm]⟩
  · rintro ⟨k, hk⟩
    exact ⟨1 + k, by rwa [List.drop_drop] at hk⟩

/-- At the end of the text the last star cannot give up later. -/
theorem globFrom_end (h : GlobMet star p [] last) : GlobFrom star p [] last ↔ Glob star p [] := by
  cases last with
  | none => exact Iff.rfl
  | some last =>
    obtain ⟨after, since⟩ := last
    obtain ⟨q, hq, rfl, rfl⟩ := h
    constructor
    · rintro ⟨k, hk⟩
      obtain ⟨u, hu, hglob⟩ := (Glob.prefix_iff hq _ _).mp hk
      have hlen := congrArg List.length hu
      simp only [List.length_drop, List.length_append, List.length_nil] at hlen
      have hnil : u = [] := List.length_eq_zero_iff.mp (by omega)
      rwa [hnil] at hglob
    · intro hglob
      exact ⟨0, (Glob.prefix_iff hq _ _).mpr ⟨[], rfl, hglob⟩⟩

end LastStar

end Orangutan.Lib
