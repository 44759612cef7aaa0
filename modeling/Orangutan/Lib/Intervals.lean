import Mathlib

/-!
# Intervals cut around others

A half-open interval is cut around a sorted list of others: what remains covers each position
outside them once. A binary search finds where the list begins to matter.
-/

namespace Orangutan.Lib

set_option autoImplicit false

structure Interval where
  start : Nat
  stop : Nat
  deriving DecidableEq, Repr

namespace Interval

def has (r : Interval) (p : Nat) : Bool := r.start ≤ p && p < r.stop

theorem has_iff {r : Interval} {p : Nat} : r.has p = true ↔ r.start ≤ p ∧ p < r.stop := by
  rw [has, Bool.and_eq_true, decide_eq_true_eq, decide_eq_true_eq]

theorem has_eq_false {r : Interval} {p : Nat} : r.has p = false ↔ p < r.start ∨ r.stop ≤ p := by
  rw [Bool.eq_false_iff, ne_eq, has_iff]
  omega

/-- An empty interval is left out. -/
def emit (start stop : Nat) : List Interval := if start < stop then [⟨start, stop⟩] else []

/-- What remains up to `stop` around the intervals. -/
def cut (stop : Nat) : Nat → List Interval → List Interval
  | start, [] => emit start stop
  | start, r :: rest =>
    if r.start < stop then emit start (min r.start stop) ++ cut stop (max start r.stop) rest
    else emit start stop

variable {start stop p : Nat} {r : Interval} {ranges : List Interval}

theorem mem_emit (h : r ∈ emit start stop) : r = ⟨start, stop⟩ ∧ start < stop := by
  unfold emit at h
  split at h
  · next hlt => exact ⟨List.mem_singleton.mp h, hlt⟩
  · cases h

theorem countP_emit : (emit start stop).countP (·.has p) = if start ≤ p ∧
    p < stop then 1 else 0 := by
  unfold emit
  split
  · next hlt =>
    rw [List.countP_singleton]
    exact if_congr has_iff rfl rfl
  · next hlt =>
    rw [List.countP_nil, if_neg (by omega)]

/-- A piece is not empty and lies within what is cut. -/
theorem mem_cut (h : r ∈ cut stop start ranges) : r.start < r.stop ∧ start ≤ r.start ∧
    r.stop ≤ stop := by
  induction ranges generalizing start with
  | nil =>
    obtain ⟨rfl, hlt⟩ := mem_emit h
    exact ⟨hlt, Nat.le_refl _, Nat.le_refl _⟩
  | cons first rest ih =>
    rw [cut] at h
    split at h
    · rcases List.mem_append.mp h with h | h
      · obtain ⟨rfl, hlt⟩ := mem_emit h
        exact ⟨hlt, Nat.le_refl _, Nat.min_le_right _ _⟩
      · obtain ⟨hlt, hstart, hstop⟩ := ih h
        exact ⟨hlt, (Nat.le_max_left _ _).trans hstart, hstop⟩
    · obtain ⟨rfl, hlt⟩ := mem_emit h
      exact ⟨hlt, Nat.le_refl _, Nat.le_refl _⟩

/-- Each position outside the intervals stays in one piece, and no other position does. -/
theorem countP_cut (hsorted : ranges.Pairwise (·.start ≤ ·.start))
    (hranges : ∀ r ∈ ranges, r.start ≤ r.stop) :
    (cut stop start ranges).countP (·.has p) =
      if start ≤ p ∧ p < stop ∧ ∀ r ∈ ranges, r.has p = false then 1 else 0 := by
  induction ranges generalizing start with
  | nil =>
    rw [cut, countP_emit]
    exact if_congr ⟨fun h => ⟨h.1, h.2, fun r hr => by cases hr⟩, fun h => ⟨h.1, h.2.1⟩⟩ rfl rfl
  | cons first rest ih =>
    obtain ⟨hfirst, hrest⟩ := List.pairwise_cons.mp hsorted
    have hle := hranges first List.mem_cons_self
    have hbefore : p < first.start → ∀ r ∈ rest, r.has p = false := by
      intro hp r hr
      exact has_eq_false.mpr (.inl (hp.trans_le (hfirst r hr)))
    rw [cut]
    split
    · next hinside =>
      rw [List.countP_append, countP_emit,
        ih hrest fun r hr => hranges r (List.mem_cons_of_mem _ hr)]
      simp only [List.forall_mem_cons, has_eq_false (r := first)]
      by_cases hp : p < first.start
      · have hout := hbefore hp
        rw [if_neg (show ¬ (max start first.stop ≤ p ∧ _) by omega), Nat.add_zero]
        refine if_congr ⟨fun h => ⟨h.1, hp.trans hinside, .inl hp, hout⟩,
          fun h => ⟨h.1, by omega⟩⟩ rfl rfl
      · rw [if_neg (show ¬ (start ≤ p ∧ p < min first.start stop) by omega), Nat.zero_add]
        refine if_congr ⟨fun h => ⟨by omega, h.2.1, .inr (by omega), h.2.2⟩,
          fun h => ⟨?_, h.2.1, h.2.2.2⟩⟩ rfl rfl
        have hstop := h.2.2.1
        omega
    · next houtside =>
      rw [countP_emit]
      refine if_congr ⟨fun h => ⟨h.1, h.2, ?_⟩, fun h => ⟨h.1, h.2.1⟩⟩ rfl rfl
      rw [List.forall_mem_cons]
      exact ⟨has_eq_false.mpr (.inl (by omega)), hbefore (by omega)⟩

/-- The binary search for the first of `len` intervals from `first` on that does not end before
`value`. -/
def search (ranges : List Interval) (value : Nat) : Nat → Nat → Nat → Nat
  | 0, first, _ => first
  | fuel + 1, first, len =>
    if len = 0 then first
    else if (ranges.getD (first + len / 2) ⟨0, 0⟩).stop < value then
      search ranges value fuel (first + len / 2 + 1) (len - (len / 2 + 1))
    else search ranges value fuel first (len / 2)

/-- `lower_bound` by the ends. -/
def lowerBound (ranges : List Interval) (value : Nat) : Nat :=
    search ranges value ranges.length 0 ranges.length

theorem search_below {value fuel first len : Nat} (hsorted : ranges.Pairwise (·.stop ≤ ·.stop))
    (hlen : first + len ≤ ranges.length) (hfirst : ∀ i < first, ∀ r, ranges[i]? = some r →
      r.stop < value) :
    ∀ i < search ranges value fuel first len, ∀ r, ranges[i]? = some r → r.stop < value := by
  induction fuel generalizing first len with
  | zero => exact hfirst
  | succ fuel ih =>
    rw [search]
    split
    · exact hfirst
    · next hne =>
      have hin : first + len / 2 < ranges.length := by omega
      split
      · next hbelow =>
        refine ih (by omega) fun i hi r hr => ?_
        rw [List.getD_eq_getElem _ _ hin] at hbelow
        by_cases hmiddle : i = first + len / 2
        · subst hmiddle
          rw [List.getElem?_eq_getElem hin] at hr
          obtain rfl := Option.some.inj hr
          exact hbelow
        · obtain ⟨hlt, rfl⟩ := List.getElem?_eq_some_iff.mp hr
          exact (List.pairwise_iff_getElem.mp hsorted i (first + len / 2) hlt hin
            (by omega)).trans_lt hbelow
      · exact ih (by omega) hfirst

/-- What the search passes over ends before the value. -/
theorem take_lowerBound {value : Nat} (hsorted : ranges.Pairwise (·.stop ≤ ·.stop))
    (hr : r ∈ ranges.take (lowerBound ranges value)) :
    r.stop < value := by
  obtain ⟨i, hi⟩ := List.mem_iff_getElem?.mp hr
  have hlt : i < lowerBound ranges value := by
    by_contra hno
    rw [List.getElem?_take_eq_none (Nat.not_lt.mp hno)] at hi
    cases hi
  rw [List.getElem?_take_of_lt hlt] at hi
  exact search_below hsorted (by omega) (fun i hi => absurd hi (Nat.not_lt_zero i)) i hlt r hi

/-- The cut may begin where the search ends. -/
theorem countP_cut_lowerBound (hstarts : ranges.Pairwise (·.start ≤ ·.start))
    (hstops : ranges.Pairwise (·.stop ≤ ·.stop)) (hranges : ∀ r ∈ ranges, r.start ≤ r.stop) :
    (cut stop start (ranges.drop (lowerBound ranges start))).countP (·.has p) =
      if start ≤ p ∧ p < stop ∧ ∀ r ∈ ranges, r.has p = false then 1 else 0 := by
  rw [countP_cut (hstarts.sublist (List.drop_sublist _ _)) fun r hr =>
    hranges r (List.mem_of_mem_drop hr)]
  refine if_congr ⟨fun ⟨hstart, hstop, hout⟩ => ⟨hstart, hstop, fun r hr => ?_⟩,
    fun ⟨hstart, hstop, hout⟩ =>
      ⟨hstart, hstop, fun r hr => hout r (List.mem_of_mem_drop hr)⟩⟩ rfl rfl
  rw [← List.take_append_drop (lowerBound ranges start) ranges] at hr
  rcases List.mem_append.mp hr with hr | hr
  · exact has_eq_false.mpr (.inr ((take_lowerBound hstops hr).le.trans hstart))
  · exact hout r hr

end Interval

end Orangutan.Lib
