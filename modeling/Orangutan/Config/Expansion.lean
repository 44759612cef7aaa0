import Mathlib.Data.List.Infix
import Orangutan.Config.Rules

/-!
# Environment references in strings

A reference is replaced by the value of its variable or by its default, which stand in the output as
they are; the reading goes on behind it.
-/

namespace Orangutan.Config

set_option autoImplicit false

open Orangutan.Core

variable {host : Host} {path : Bytes}

theorem infix_cons_cons {a b c d : UInt8} {rest : Bytes} :
    [a, b] <:+: c :: d :: rest ↔ (c = a ∧ d = b) ∨ [a, b] <:+: d :: rest := by
  rw [List.infix_cons_iff, List.cons_prefix_cons, List.cons_prefix_cons]
  simp [eq_comm]

theorem breakAt_none {a b : UInt8} {s : Bytes} : breakAt a b s = none ↔ ¬ [a, b] <:+: s := by
  induction s using breakAt.induct a b with
  | case1 => simp [breakAt]
  | case2 c => simp [breakAt, List.infix_cons_iff]
  | case3 c d rest h => simp [breakAt, h, infix_cons_cons]
  | case4 c d rest h ih => rw [breakAt, if_neg h, Option.map_eq_none_iff, ih, infix_cons_cons,
      or_iff_right h]

/-- The first place of two different bytes. -/
theorem breakAt_some {a b : UInt8} (hne : a ≠ b) {s before after : Bytes} :
    breakAt a b s = some (before, after) ↔
    s = before ++ a :: b :: after ∧ ¬ [a, b] <:+: before := by
  induction s using breakAt.induct a b generalizing before with
  | case1 => simp [breakAt]
  | case2 c =>
    refine iff_of_false (by simp [breakAt]) ?_
    rintro ⟨heq, -⟩
    have hlength := congrArg List.length heq
    simp at hlength
    omega
  | case3 c d rest h =>
    obtain ⟨rfl, rfl⟩ := h
    rw [breakAt, if_pos ⟨rfl, rfl⟩, Option.some.injEq, Prod.mk.injEq]
    constructor
    · rintro ⟨rfl, rfl⟩
      exact ⟨rfl, by simp⟩
    · rintro ⟨heq, hfirst⟩
      rcases before with _ | ⟨x, _ | ⟨y, before⟩⟩
      · cases heq
        exact ⟨rfl, rfl⟩
      · cases heq
        exact absurd rfl hne
      · cases heq
        exact absurd (infix_cons_cons.mpr (.inl ⟨rfl, rfl⟩)) hfirst
  | case4 c d rest h ih =>
    rw [breakAt, if_neg h, Option.map_eq_some_iff]
    constructor
    · rintro ⟨⟨found, rest'⟩, hfound, heq⟩
      cases heq
      obtain ⟨heq, hfirst⟩ := ih.mp hfound
      refine ⟨by rw [heq]; rfl, ?_⟩
      rcases found with _ | ⟨x, found⟩
      · simp [List.infix_cons_iff]
      · cases heq
        rw [infix_cons_cons, not_or]
        exact ⟨h, hfirst⟩
    · rintro ⟨heq, hfirst⟩
      rcases before with _ | ⟨x, before⟩
      · cases heq
        exact absurd ⟨rfl, rfl⟩ h
      · obtain ⟨rfl, hrest⟩ := List.cons.inj heq
        exact ⟨(before, after), ih.mpr
          ⟨hrest, fun hinner => hfirst (hinner.trans (List.suffix_cons _ _).isInfix)⟩, rfl⟩

/-- A reference has the value of its variable; an empty or missing one has the default. -/
inductive Substitutes (host : Host) : Bytes → Bytes → Prop
  | plain {name value : Bytes} (hname : validEnvName name = true) (hvalue : host.getenv name =
      some value) :
      Substitutes host name value
  | found {name fallback value : Bytes} (hname : validEnvName name = true)
      (hvalue : host.getenv name = some value)
      (hne : value ≠ []) : Substitutes host (name ++ 0x3A :: 0x2D :: fallback) value
  | default {name fallback : Bytes} (hname : validEnvName name = true)
      (hmissing : host.getenv name = none ∨ host.getenv name = some []) :
      Substitutes host (name ++ 0x3A :: 0x2D :: fallback) fallback

/-- One pass from the left: values and defaults are not read again. -/
inductive Expands (host : Host) : Bytes → Bytes → Prop
  | unchanged {s : Bytes} (hnone : ¬ [0x24, 0x7B] <:+: s) : Expands host s s
  | reference {before expr rest value output : Bytes} (hfirst : ¬ [0x24, 0x7B] <:+: before)
      (hexpr : 0x7D ∉ expr)
      (hvalue : Substitutes host expr value) (hrest : Expands host rest output) :
      Expands host (before ++ 0x24 :: 0x7B :: (expr ++ 0x7D :: rest)) (before ++ (value ++ output))

theorem not_infix_of_validEnvName {name : Bytes} (h : validEnvName name = true) :
    ¬ [0x3A, 0x2D] <:+: name := by
  intro hinfix
  have hmem : (0x3A : UInt8) ∈ name := hinfix.subset List.mem_cons_self
  unfold validEnvName at h
  have hall := List.all_eq_true.mp (Bool.and_eq_true_iff.mp h).2 _ hmem
  revert hall
  decide

/-- The marker of a default is the first one, for a name has none. -/
theorem breakAt_marker {name fallback : Bytes} (hname : validEnvName name = true) :
    breakAt 0x3A 0x2D (name ++ 0x3A :: 0x2D :: fallback) = some (name, fallback) :=
  (breakAt_some (by decide)).mpr ⟨rfl, not_infix_of_validEnvName hname⟩

theorem substitute_ok {expr value : Bytes} : substitute host path expr = .ok value ↔
    Substitutes host expr value := by
  constructor
  · intro h
    unfold substitute at h
    rcases hmarker : breakAt 0x3A 0x2D expr with _ | ⟨name, fallback⟩
    · rw [hmarker] at h
      by_cases hname : validEnvName expr = true
      · rcases hvalue : host.getenv expr with _ | found
        · simp [hname, hvalue] at h
        · simp only [Option.map_none, Option.getD_none, hname, hvalue, Bool.not_true,
            Bool.false_eq_true, if_false] at h
          cases h
          exact .plain hname hvalue
      · simp [hname] at h
    · rw [hmarker] at h
      obtain ⟨rfl, -⟩ := (breakAt_some (by decide)).mp hmarker
      by_cases hname : validEnvName name = true
      · rcases hvalue : host.getenv name with _ | found
        · simp only [Option.map_some, Option.getD_some, hname, hvalue, Bool.not_true,
            Bool.false_eq_true, if_false] at h
          cases h
          exact .default hname (.inl hvalue)
        · simp only [Option.map_some, Option.getD_some, hname, hvalue, Bool.not_true,
            Bool.false_eq_true, if_false] at h
          rcases found with _ | ⟨c, found⟩
          · cases h
            exact .default hname (.inr hvalue)
          · cases h
            exact .found hname hvalue (List.cons_ne_nil c found)
      · simp [hname] at h
  · intro h
    unfold substitute
    cases h with
    | plain hname hvalue =>
      rw [breakAt_none.mpr (not_infix_of_validEnvName hname)]
      simp [hname, hvalue]
    | found hname hvalue hne =>
      rw [breakAt_marker hname]
      simp [hname, hvalue, hne]
    | default hname hmissing =>
      rw [breakAt_marker hname]
      rcases hmissing with hvalue | hvalue
      · simp [hname, hvalue]
      · simp [hname, hvalue]

/-- Behind the first reference. -/
theorem expands_reference {before after output : Bytes} (hfirst : ¬ [0x24, 0x7B] <:+: before) :
    Expands host (before ++ 0x24 :: 0x7B :: after) output ↔ ∃ expr rest value behind,
      after = expr ++ 0x7D :: rest ∧
      0x7D ∉ expr ∧ Substitutes host expr value ∧ Expands host rest behind ∧
        output = before ++ (value ++ behind) := by
  constructor
  · intro h
    generalize hinput : before ++ 0x24 :: 0x7B :: after = input at h
    have hbreak : breakAt 0x24 0x7B input = some (before, after) :=
      (breakAt_some (by decide)).mpr ⟨hinput.symm, hfirst⟩
    cases h with
    | unchanged hnone =>
      rw [breakAt_none.mpr hnone] at hbreak
      cases hbreak
    | @reference before' expr rest value behind hfirst' hexpr hvalue hrest =>
      rw [(breakAt_some (by decide)).mpr ⟨rfl, hfirst'⟩] at hbreak
      cases hbreak
      exact ⟨expr, rest, value, behind, rfl, hexpr, hvalue, hrest, rfl⟩
  · rintro ⟨expr, rest, value, behind, rfl, hexpr, hvalue, hrest, rfl⟩
    exact .reference hfirst hexpr hvalue hrest

/-- The text up to a brace and the text behind it. -/
theorem braces {after expr rest : Bytes} (hexpr : 0x7D ∉ expr) (h : after = expr ++ 0x7D :: rest) :
    after.takeWhile (· != 0x7D) = expr ∧ (after.dropWhile (· != 0x7D)).drop 1 = rest := by
  have hall : ∀ c ∈ expr, (c != 0x7D) = true := fun c hc => bne_iff_ne.mpr fun heq =>
    hexpr (heq ▸ hc)
  subst h
  rw [List.takeWhile_append_of_pos hall, List.dropWhile_append_of_pos hall]
  simp

theorem exists_braces {after : Bytes} (h : 0x7D ∈ after) : ∃ expr rest, 0x7D ∉ expr ∧
    after = expr ++ 0x7D :: rest := by
  obtain ⟨expr, rest, rfl, hexpr⟩ := List.eq_append_cons_of_mem h
  exact ⟨expr, rest, hexpr, rfl⟩

/-- Each round goes past one reference. -/
theorem expandFrom_ok {rounds : Nat} {input output : Bytes} (hrounds : input.length < rounds) :
    expandFrom host path rounds input = .ok output ↔ Expands host input output := by
  induction rounds generalizing input output with
  | zero => exact absurd hrounds (Nat.not_lt_zero _)
  | succ rounds ih =>
    rw [expandFrom]
    rcases hbreak : breakAt 0x24 0x7B input with _ | ⟨before, after⟩
    · have hnone := breakAt_none.mp hbreak
      constructor
      · intro h
        cases h
        exact .unchanged hnone
      · intro h
        cases h with
        | unchanged _ => rfl
        | reference _ _ _ _ => exact absurd ⟨_, _, by rw [List.append_assoc]; rfl⟩ hnone
    · obtain ⟨rfl, hfirst⟩ := (breakAt_some (by decide)).mp hbreak
      rw [expands_reference hfirst]
      by_cases hclosed : 0x7D ∈ after
      · obtain ⟨expr, rest, hexpr, rfl⟩ := exists_braces hclosed
        have hshort : rest.length < rounds := by simp at hrounds; omega
        have hcontains : (expr ++ 0x7D :: rest).contains 0x7D = true := by simp
        obtain ⟨htake, hdrop⟩ := braces hexpr rfl
        dsimp only
        rw [hcontains, htake, hdrop]
        constructor
        · intro h
          rcases hvalue : substitute host path expr with e | value
          · rw [hvalue] at h
            cases h
          · rcases hrest : expandFrom host path rounds rest with e | behind
            · rw [hvalue, hrest] at h
              cases h
            · rw [hvalue, hrest] at h
              cases h
              exact ⟨expr, rest, value, behind, rfl, hexpr, substitute_ok.mp hvalue,
                (ih hshort).mp hrest, List.append_assoc _ _ _⟩
        · rintro ⟨expr', rest', value, behind, heq, hexpr', hvalue, hrest, rfl⟩
          obtain ⟨htake', hdrop'⟩ := braces hexpr' heq
          obtain rfl : expr = expr' := htake.symm.trans htake'
          obtain rfl : rest = rest' := hdrop.symm.trans hdrop'
          rw [substitute_ok.mpr hvalue, (ih hshort).mpr hrest, ← List.append_assoc]
          rfl
      · have hopen : after.contains 0x7D = false := by simpa using hclosed
        dsimp only
        rw [hopen]
        refine iff_of_false (fun h => by cases h) ?_
        rintro ⟨expr, rest, value, behind, rfl, -⟩
        exact hclosed (by simp)

theorem expandEnvString_ok {input output : Bytes} :
    expandEnvString host input path = .ok output ↔ Expands host input output :=
      expandFrom_ok (Nat.lt_succ_self _)

end Orangutan.Config
