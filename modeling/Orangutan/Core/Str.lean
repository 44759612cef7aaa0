import Orangutan.Core.Error

/-!
# UTF-8 boundary helpers

The validator walks one complete sequence at a time: the opening byte fixes the
length, the first continuation byte has a range of its own, later ones lie in
`0x80..0xBF`.
-/

namespace Orangutan.Core.Str

set_option autoImplicit false

open Orangutan.Core

/-- Total sequence length announced by an opening byte, or 0. -/
def leadLength (b : UInt8) : Nat :=
  if b < 0x80 then 1
  else if b < 0xC2 then 0
  else if b < 0xE0 then 2
  else if b < 0xF0 then 3
  else if b < 0xF5 then 4
  else 0

/-- Range of the first continuation byte after `lead`. -/
def firstContinuationRange (lead : UInt8) : UInt8 × UInt8 :=
  if lead = 0xE0 then (0xA0, 0xBF)
  else if lead = 0xED then (0x80, 0x9F)
  else if lead = 0xF0 then (0x90, 0xBF)
  else if lead = 0xF4 then (0x80, 0x8F)
  else (0x80, 0xBF)

def inRange (b : UInt8) (r : UInt8 × UInt8) : Bool := r.1 ≤ b && b ≤ r.2

def isValidUtf8 : Bytes → Bool
  | [] => true
  | lead :: rest =>
    match leadLength lead, rest with
    | 1, rest => isValidUtf8 rest
    | 2, b₁ :: rest => inRange b₁ (firstContinuationRange lead) && isValidUtf8 rest
    | 3, b₁ :: b₂ :: rest =>
      inRange b₁ (firstContinuationRange lead) && inRange b₂ (0x80, 0xBF) && isValidUtf8 rest
    | 4, b₁ :: b₂ :: b₃ :: rest =>
      inRange b₁ (firstContinuationRange lead) && inRange b₂ (0x80, 0xBF) &&
        inRange b₃ (0x80, 0xBF) && isValidUtf8 rest
    | _, _ => false

/-- The walk of `truncate_to_code_point`: the last boundary that still fits.
`fuel` bounds the remaining bytes; every step advances by at least one. -/
def boundary (maxBytes size : Nat) : Nat → Bytes → Nat → Nat
  | 0, _, i => i
  | _ + 1, [], i => i
  | fuel + 1, b :: rest, i =>
    let step := if leadLength b = 0 then 1 else leadLength b
    if maxBytes < i + step then i
    else if size < i + step then i
    else boundary maxBytes size fuel (rest.drop (step - 1)) (i + step)

def truncateToCodePoint (t : Bytes) (maxBytes : Nat) : Bytes :=
  if t.length ≤ maxBytes then t
  else t.take (boundary maxBytes t.length t.length t 0)

theorem truncateToCodePoint_length_le (t : Bytes) (maxBytes : Nat) :
    (truncateToCodePoint t maxBytes).length ≤ t.length := by
  unfold truncateToCodePoint
  split
  · exact Nat.le_refl _
  · exact List.length_take_le' _ _

-- One equation for each length of an opening sequence.
theorem isValidUtf8_opened (lead : UInt8) :
    (leadLength lead = 1 → ∀ t, isValidUtf8 (lead :: t) = isValidUtf8 t) ∧
    (leadLength lead = 2 → ∀ b₁ t, isValidUtf8 (lead :: b₁ :: t) =
      (inRange b₁ (firstContinuationRange lead) && isValidUtf8 t)) ∧
    (leadLength lead = 3 → ∀ b₁ b₂ t, isValidUtf8 (lead :: b₁ :: b₂ :: t) =
      (inRange b₁ (firstContinuationRange lead) && inRange b₂ (0x80, 0xBF) && isValidUtf8 t)) ∧
    (leadLength lead = 4 → ∀ b₁ b₂ b₃ t, isValidUtf8 (lead :: b₁ :: b₂ :: b₃ :: t) =
      (inRange b₁ (firstContinuationRange lead) && inRange b₂ (0x80, 0xBF) &&
        inRange b₃ (0x80, 0xBF) && isValidUtf8 t)) := by
  refine ⟨fun hl t => ?_, fun hl b₁ t => ?_, fun hl b₁ b₂ t => ?_, fun hl b₁ b₂ b₃ t => ?_⟩ <;>
    (rw [isValidUtf8.eq_def]; simp only [hl])

theorem isValidUtf8_one {lead : UInt8} (hl : leadLength lead = 1) (t : Bytes) :
    isValidUtf8 (lead :: t) = isValidUtf8 t :=
  (isValidUtf8_opened lead).1 hl t

theorem isValidUtf8_two {lead : UInt8} (hl : leadLength lead = 2) (b₁ : UInt8) (t : Bytes) :
    isValidUtf8 (lead :: b₁ :: t) =
      (inRange b₁ (firstContinuationRange lead) && isValidUtf8 t) :=
  (isValidUtf8_opened lead).2.1 hl b₁ t

theorem isValidUtf8_three {lead : UInt8} (hl : leadLength lead = 3) (b₁ b₂ : UInt8) (t : Bytes) :
    isValidUtf8 (lead :: b₁ :: b₂ :: t) =
      (inRange b₁ (firstContinuationRange lead) && inRange b₂ (0x80, 0xBF) && isValidUtf8 t) :=
  (isValidUtf8_opened lead).2.2.1 hl b₁ b₂ t

theorem isValidUtf8_four {lead : UInt8} (hl : leadLength lead = 4) (b₁ b₂ b₃ : UInt8) (t : Bytes) :
    isValidUtf8 (lead :: b₁ :: b₂ :: b₃ :: t) =
      (inRange b₁ (firstContinuationRange lead) && inRange b₂ (0x80, 0xBF) &&
        inRange b₃ (0x80, 0xBF) && isValidUtf8 t) :=
  (isValidUtf8_opened lead).2.2.2 hl b₁ b₂ b₃ t

theorem leadLength_ascii {b : UInt8} (hb : b < 0x80) : leadLength b = 1 := by
  simp [leadLength, hb]

theorem leadLength_eq_one {b : UInt8} (hl : leadLength b = 1) : b < 0x80 := by
  unfold leadLength at hl
  by_contra hb
  simp only [hb, if_false] at hl
  split_ifs at hl <;> omega

/-- A byte that opens a longer sequence, or continues one, is not ASCII. -/
theorem not_ascii_of_lead {b : UInt8} (hl : 2 ≤ leadLength b) : ¬ b < 0x80 := by
  intro hb
  rw [leadLength_ascii hb] at hl
  omega

theorem not_ascii_of_inRange {b : UInt8} {r : UInt8 × UInt8} (hr : 0x80 ≤ r.1)
    (h : inRange b r = true) : ¬ b < 0x80 := by
  simp only [inRange, Bool.and_eq_true, decide_eq_true_eq] at h
  exact UInt8.not_lt.mpr (UInt8.le_trans hr h.1)

theorem continuation_not_ascii (lead : UInt8) : 0x80 ≤ (firstContinuationRange lead).1 := by
  unfold firstContinuationRange
  split_ifs <;> decide

theorem isValidUtf8_ascii_append {t : Bytes} (ht : ∀ b ∈ t, b < 0x80) (u : Bytes) :
    isValidUtf8 (t ++ u) = isValidUtf8 u := by
  induction t with
  | nil => rfl
  | cons b t ih =>
    rw [List.cons_append, isValidUtf8_one (leadLength_ascii (ht b List.mem_cons_self)),
      ih fun c hc => ht c (List.mem_cons_of_mem b hc)]

/-- Complete sequences stay complete when more text follows. -/
theorem isValidUtf8_append {t u : Bytes} (ht : isValidUtf8 t = true) :
    isValidUtf8 (t ++ u) = isValidUtf8 u := by
  fun_induction isValidUtf8 t with
  | case1 => rfl
  | case2 lead rest hl ih =>
    rw [List.cons_append, isValidUtf8_one hl, ih ht]
  | case3 lead b₁ rest hl ih =>
    simp only [Bool.and_eq_true] at ht
    simp only [List.cons_append, isValidUtf8_two hl, ih ht.2, ht.1, Bool.true_and]
  | case4 lead b₁ b₂ rest hl ih =>
    simp only [Bool.and_eq_true] at ht
    simp only [List.cons_append, isValidUtf8_three hl, ih ht.2, ht.1.1, ht.1.2, Bool.true_and]
  | case5 lead b₁ b₂ b₃ rest hl ih =>
    simp only [Bool.and_eq_true] at ht
    simp only [List.cons_append, isValidUtf8_four hl, ih ht.2, ht.1.1.1, ht.1.1.2, ht.1.2,
      Bool.true_and]
  | case6 => exact absurd ht (by simp)

/-- Rewriting ASCII bytes into ASCII texts keeps a text well formed: no byte of a
longer sequence is touched. -/
theorem isValidUtf8_flatMap {f : UInt8 → Bytes} (ha : ∀ b, b < 0x80 → ∀ c ∈ f b, c < 0x80)
    (hk : ∀ b, ¬ b < 0x80 → f b = [b]) {t : Bytes} (ht : isValidUtf8 t = true) :
    isValidUtf8 (t.flatMap f) = true := by
  have htail {b : UInt8} (h : inRange b (0x80, 0xBF) = true) : f b = [b] :=
    hk b (not_ascii_of_inRange (by decide) h)
  have hfirst {lead b : UInt8} (h : inRange b (firstContinuationRange lead) = true) : f b = [b] :=
    hk b (not_ascii_of_inRange (continuation_not_ascii lead) h)
  fun_induction isValidUtf8 t with
  | case1 => rfl
  | case2 lead rest hl ih =>
    rw [List.flatMap_cons, isValidUtf8_ascii_append (ha lead (leadLength_eq_one hl))]
    exact ih ht
  | case3 lead b₁ rest hl ih =>
    simp only [Bool.and_eq_true] at ht
    have hlead := hk lead (not_ascii_of_lead (by omega))
    simp only [List.flatMap_cons, hlead, hfirst ht.1, List.cons_append, List.nil_append,
      isValidUtf8_two hl, ih ht.2, ht.1, Bool.and_self]
  | case4 lead b₁ b₂ rest hl ih =>
    simp only [Bool.and_eq_true] at ht
    have hlead := hk lead (not_ascii_of_lead (by omega))
    simp only [List.flatMap_cons, hlead, hfirst ht.1.1, htail ht.1.2, List.cons_append,
      List.nil_append, isValidUtf8_three hl, ih ht.2, ht.1.1, ht.1.2, Bool.and_self]
  | case5 lead b₁ b₂ b₃ rest hl ih =>
    simp only [Bool.and_eq_true] at ht
    have hlead := hk lead (not_ascii_of_lead (by omega))
    simp only [List.flatMap_cons, hlead, hfirst ht.1.1.1, htail ht.1.1.2, htail ht.1.2,
      List.cons_append, List.nil_append, isValidUtf8_four hl, ih ht.2, ht.1.1.1, ht.1.1.2, ht.1.2,
      Bool.and_self]
  | case6 => exact absurd ht (by simp)

end Orangutan.Core.Str
