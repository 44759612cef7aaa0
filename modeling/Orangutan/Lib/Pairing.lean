import Mathlib

/-!
# Openings and their answers

A sequence of marks opens and closes identities. It is paired when every closing mark
answers an opening and no identity is opened again before it was answered. Openings
without an answer may remain. A front part without open identities can be taken away:
the rest is paired by itself.
-/

namespace Orangutan.Lib

set_option autoImplicit false

inductive Mark (ι : Type)
  | opens (i : ι)
  | closes (i : ι)

namespace Mark

variable {ι : Type}

structure Paired (l : List (Mark ι)) : Prop where
  reopen : ∀ pre mid post i, l = pre ++ opens i :: (mid ++ opens i :: post) → closes i ∈ mid
  answer : ∀ pre post i, l = pre ++ closes i :: post → ∃ a b, pre = a ++ opens i :: b ∧ closes i ∉ b

theorem Paired.nil : Paired ([] : List (Mark ι)) where
  reopen := fun pre mid post i h => by simp at h
  answer := fun pre post i h => by simp at h

variable [DecidableEq ι]

/-- The open identities after one more mark. -/
def settle (pending : Finset ι) : Mark ι → Finset ι
  | opens i => insert i pending
  | closes i => pending.erase i

def pending (l : List (Mark ι)) : Finset ι := l.foldl settle ∅

/-- An identity is open when it was opened and not closed afterwards. -/
theorem mem_pending {l : List (Mark ι)} {i : ι} :
    i ∈ pending l ↔ ∃ a b, l = a ++ opens i :: b ∧ closes i ∉ b := by
  induction l using List.reverseRecOn with
  | nil =>
    constructor
    · intro h; cases h
    · rintro ⟨a, b, h, -⟩; simp at h
  | append_singleton l m ih =>
    have hstep : pending (l ++ [m]) = settle (pending l) m := by simp [pending]
    rw [hstep]
    constructor
    · intro h
      have hold : i ∈ pending l → m ≠ closes i → ∃ a b, l ++ [m] = a ++ opens i :: b ∧
          closes i ∉ b := by
        intro hi hne
        obtain ⟨a, b, rfl, hb⟩ := ih.mp hi
        refine ⟨a, b ++ [m], by simp, fun hmem => ?_⟩
        rcases List.mem_append.mp hmem with hmem | hmem
        · exact hb hmem
        · exact hne (List.mem_singleton.mp hmem).symm
      cases m with
      | opens k =>
        rcases Finset.mem_insert.mp h with rfl | hi
        · exact ⟨l, [], by simp, by simp⟩
        · exact hold hi (by simp)
      | closes k =>
        obtain ⟨hne, hi⟩ := Finset.mem_erase.mp h
        exact hold hi fun he => hne (by injection he with he; exact he.symm)
    · rintro ⟨a, b, hl, hb⟩
      rcases List.eq_nil_or_concat b with rfl | ⟨b, k, rfl⟩
      · obtain ⟨-, rfl⟩ : l = a ∧ m = opens i := by simpa using hl
        exact Finset.mem_insert_self _ _
      · have hparts : l = a ++ opens i :: b ∧ m = k := by
          have hl' : l ++ [m] = (a ++ opens i :: b) ++ [k] := by simpa using hl
          obtain ⟨h₁, h₂⟩ := List.append_inj' hl' rfl
          exact ⟨h₁, by simpa using h₂⟩
        obtain ⟨hfront, rfl⟩ := hparts
        have hi : i ∈ pending l := ih.mpr ⟨a, b, hfront, fun hmem => hb (by simp [hmem])⟩
        cases m with
        | opens k => exact Finset.mem_insert_of_mem hi
        | closes k =>
          refine Finset.mem_erase.mpr ⟨fun he => hb ?_, hi⟩
          rw [he]
          simp

theorem pending_append {a : List (Mark ι)} (h : pending a = ∅) (b : List (Mark ι)) :
    pending (a ++ b) = pending b := by
  unfold pending at h ⊢
  rw [List.foldl_append, h]

/-- Every opening of a part without open identities is answered in that part. -/
theorem answered {a : List (Mark ι)} (h : pending a = ∅) {pre post : List (Mark ι)} {i : ι}
    (ha : a = pre ++ opens i :: post) : closes i ∈ post := by
  by_contra hno
  have hi : i ∈ pending a := mem_pending.mpr ⟨pre, post, ha, hno⟩
  rw [h] at hi
  cases hi

-- Sequences are built from the end: an opening needs a closed identity, a closing mark an
-- open one.
theorem Paired.append_opens {l : List (Mark ι)} (h : Paired l) {k : ι} (hk : k ∉ pending l) :
    Paired (l ++ [opens k]) where
  reopen := fun pre mid post i hl => by
    rcases List.eq_nil_or_concat post with rfl | ⟨post, m, rfl⟩
    · have hl : l ++ [opens k] = (pre ++ opens i :: mid) ++ [opens i] := by simpa using hl
      obtain ⟨hfront, hlast⟩ := List.append_inj' hl rfl
      obtain rfl : k = i := by simpa using hlast
      by_contra hno
      exact hk (mem_pending.mpr ⟨pre, mid, hfront, hno⟩)
    · have hl : l ++ [opens k] = (pre ++ opens i :: (mid ++ opens i :: post)) ++ [m] := by
        simpa using hl
      exact h.reopen pre mid post i (List.append_inj' hl rfl).1
  answer := fun pre post i hl => by
    rcases List.eq_nil_or_concat post with rfl | ⟨post, m, rfl⟩
    · have hlast := (List.append_inj' hl rfl).2
      simp at hlast
    · have hl : l ++ [opens k] = (pre ++ closes i :: post) ++ [m] := by simpa using hl
      exact h.answer pre post i (List.append_inj' hl rfl).1

theorem Paired.append_closes {l : List (Mark ι)} (h : Paired l) {k : ι} (hk : k ∈ pending l) :
    Paired (l ++ [closes k]) where
  reopen := fun pre mid post i hl => by
    rcases List.eq_nil_or_concat post with rfl | ⟨post, m, rfl⟩
    · have hl : l ++ [closes k] = (pre ++ opens i :: mid) ++ [opens i] := by simpa using hl
      have hlast := (List.append_inj' hl rfl).2
      simp at hlast
    · have hl : l ++ [closes k] = (pre ++ opens i :: (mid ++ opens i :: post)) ++ [m] := by
        simpa using hl
      exact h.reopen pre mid post i (List.append_inj' hl rfl).1
  answer := fun pre post i hl => by
    rcases List.eq_nil_or_concat post with rfl | ⟨post, m, rfl⟩
    · obtain ⟨rfl, hlast⟩ := List.append_inj' hl rfl
      obtain rfl : k = i := by simpa using hlast
      exact mem_pending.mp hk
    · have hl : l ++ [closes k] = (pre ++ closes i :: post) ++ [m] := by simpa using hl
      exact h.answer pre post i (List.append_inj' hl rfl).1

/-- Taking away a front part without open identities leaves a paired sequence. -/
theorem Paired.of_append {a b : List (Mark ι)} (h : Paired (a ++ b)) (ha : pending a = ∅) :
    Paired b where
  reopen := fun pre mid post i hb => h.reopen (a ++ pre) mid post i (by rw [hb, List.append_assoc])
  answer := fun pre post i hb => by
    obtain ⟨x, y, hx, hy⟩ := h.answer (a ++ pre) post i (by rw [hb, List.append_assoc])
    rcases List.append_eq_append_iff.mp hx with ⟨c, rfl, hpre⟩ | ⟨c, rfl, hc⟩
    · exact ⟨c, y, hpre, hy⟩
    · cases c with
      | nil => exact ⟨[], y, by simpa using hc.symm, hy⟩
      | cons m c =>
        obtain ⟨rfl, rfl⟩ : opens i = m ∧ y = c ++ pre := by simpa using hc
        have hanswer : closes i ∈ c := answered ha rfl
        exact absurd (List.mem_append_left pre hanswer) hy

end Mark

end Orangutan.Lib
