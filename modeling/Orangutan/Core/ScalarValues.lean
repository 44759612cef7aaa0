import Orangutan.Core.CodePoints

/-!
# Scalar values

A complete sequence is the encoding of one Unicode scalar value, which is a `Char`. Well-formed
text is the encoding of exactly one list of them.
-/

namespace Orangutan.Core.Str

set_option autoImplicit false

open Orangutan.Core

/-- The loop of `count_code_points`. -/
def countCodePointsFrom (count : Nat) : Bytes → Option Nat
  | [] => some count
  | lead :: rest =>
    match leadLength lead, rest with
    | 1, rest => countCodePointsFrom (count + 1) rest
    | 2, b₁ :: rest =>
      if inRange b₁ (firstContinuationRange lead)
        then countCodePointsFrom (count + 1) rest else none
    | 3, b₁ :: b₂ :: rest =>
      if inRange b₁ (firstContinuationRange lead) && inRange b₂ (0x80, 0xBF)
        then countCodePointsFrom (count + 1) rest
      else none
    | 4, b₁ :: b₂ :: b₃ :: rest =>
      if inRange b₁ (firstContinuationRange lead) && inRange b₂ (0x80, 0xBF) && inRange b₃ (0x80,
        0xBF) then
        countCodePointsFrom (count + 1) rest
      else none
    | _, _ => none

def countCodePoints (t : Bytes) : Option Nat := countCodePointsFrom 0 t

/-- The encoding of a list of scalar values. -/
def encode (s : List Char) : Bytes := s.flatMap String.utf8EncodeChar

/-- An opening byte with its continuation bytes. -/
inductive Sequence : Bytes → Prop
  | one {lead : UInt8} (hl : leadLength lead = 1) : Sequence [lead]
  | two {lead b₁ : UInt8} (hl : leadLength lead = 2)
      (h₁ : inRange b₁ (firstContinuationRange lead) = true) :
      Sequence [lead, b₁]
  | three {lead b₁ b₂ : UInt8} (hl : leadLength lead = 3)
      (h₁ : inRange b₁ (firstContinuationRange lead) = true)
      (h₂ : inRange b₂ (0x80, 0xBF) = true) : Sequence [lead, b₁, b₂]
  | four {lead b₁ b₂ b₃ : UInt8} (hl : leadLength lead = 4)
      (h₁ : inRange b₁ (firstContinuationRange lead) = true)
      (h₂ : inRange b₂ (0x80, 0xBF) = true) (h₃ : inRange b₃ (0x80, 0xBF) = true) :
        Sequence [lead, b₁, b₂, b₃]

namespace Sequence

variable {s : Bytes}

theorem valid (h : Sequence s) (t : Bytes) : isValidUtf8 (s ++ t) = isValidUtf8 t := by
  cases h with
  | one hl => exact isValidUtf8_one hl t
  | two hl h₁ => simp [isValidUtf8_two hl, h₁]
  | three hl h₁ h₂ => simp [isValidUtf8_three hl, h₁, h₂]
  | four hl h₁ h₂ h₃ => simp [isValidUtf8_four hl, h₁, h₂, h₃]

theorem count (h : Sequence s) (n : Nat) (t : Bytes) :
    countCodePointsFrom n (s ++ t) = countCodePointsFrom (n + 1) t := by
  cases h with
  | one hl => simp [countCodePointsFrom, hl]
  | two hl h₁ => simp [countCodePointsFrom, hl, h₁]
  | three hl h₁ h₂ => simp [countCodePointsFrom, hl, h₁, h₂]
  | four hl h₁ h₂ h₃ => simp [countCodePointsFrom, hl, h₁, h₂, h₃]

end Sequence

/-- Well-formed text begins with a complete sequence. -/
theorem exists_sequence {t : Bytes} (h : isValidUtf8 t = true) (hne : t ≠ []) :
    ∃ s u, t = s ++ u ∧ Sequence s ∧ isValidUtf8 u = true := by
  fun_cases isValidUtf8 t with
  | case1 => exact absurd rfl hne
  | case2 lead rest hl =>
    rw [isValidUtf8_one hl] at h
    exact ⟨[lead], rest, rfl, .one hl, h⟩
  | case3 lead b₁ rest hl =>
    simp only [isValidUtf8_two hl, Bool.and_eq_true] at h
    exact ⟨[lead, b₁], rest, rfl, .two hl h.1, h.2⟩
  | case4 lead b₁ b₂ rest hl =>
    simp only [isValidUtf8_three hl, Bool.and_eq_true] at h
    exact ⟨[lead, b₁, b₂], rest, rfl, .three hl h.1.1 h.1.2, h.2⟩
  | case5 lead b₁ b₂ b₃ rest hl =>
    simp only [isValidUtf8_four hl, Bool.and_eq_true] at h
    exact ⟨[lead, b₁, b₂, b₃], rest, rfl, .four hl h.1.1.1 h.1.1.2 h.1.2, h.2⟩
  | case6 => simp_all [isValidUtf8]

theorem leadLength_nat (b : UInt8) :
    leadLength b =
      if b.toNat < 128 then 1 else if b.toNat < 194 then 0 else if b.toNat < 224 then 2
        else if b.toNat < 240 then 3
      else if b.toNat < 245 then 4 else 0 := by
  simp only [leadLength, UInt8.lt_iff_toNat_lt]
  rfl

theorem inRange_nat (b : UInt8) (r : UInt8 × UInt8) : inRange b r = true ↔ r.1.toNat ≤ b.toNat ∧
    b.toNat ≤ r.2.toNat := by
  simp only [inRange, Bool.and_eq_true, decide_eq_true_eq, UInt8.le_iff_toNat_le]

/-- The range of the first continuation byte, in numbers. -/
theorem inRange_first (lead b : UInt8) :
    inRange b (firstContinuationRange lead) = true ↔
      (if lead.toNat = 0xE0 then 0xA0 else if lead.toNat = 0xF0 then 0x90 else 0x80) ≤ b.toNat ∧
        b.toNat ≤ (if lead.toNat = 0xED then 0x9F else if lead.toNat = 0xF4 then 0x8F
          else 0xBF) := by
  have hsame (c : UInt8) : lead = c ↔ lead.toNat = c.toNat := UInt8.toNat_inj.symm
  rw [inRange_nat, firstContinuationRange]
  simp only [hsame]
  have h₁ : (0xE0 : UInt8).toNat = 0xE0 := rfl
  have h₂ : (0xED : UInt8).toNat = 0xED := rfl
  have h₃ : (0xF0 : UInt8).toNat = 0xF0 := rfl
  have h₄ : (0xF4 : UInt8).toNat = 0xF4 := rfl
  rw [h₁, h₂, h₃, h₄]
  split_ifs <;> first | rfl | omega

theorem toNat_ofNat {n : Nat} (h : n < 256) : (UInt8.ofNat n).toNat = n := by
  rw [UInt8.toNat_ofNat']
  exact Nat.mod_eq_of_lt h

/-- The surrogates are no scalar values. -/
theorem char_ranges (c : Char) : c.val.toNat < 0xD800 ∨ 0xDFFF < c.val.toNat ∧
    c.val.toNat < 0x110000 := c.valid

theorem sequence_encodeChar (c : Char) : Sequence (String.utf8EncodeChar c) := by
  have hscalar := char_ranges c
  unfold String.utf8EncodeChar
  generalize c.val.toNat = v at hscalar
  dsimp only
  have htail (n : Nat) : inRange (UInt8.ofNat (n % 64 + 128)) (0x80, 0xBF) = true := by
    rw [inRange_nat, toNat_ofNat (by omega)]
    exact ⟨Nat.le_add_left _ _, (by change n % 64 + 128 ≤ 191; omega)⟩
  split_ifs with h₁ h₂ h₃
  · refine .one ?_
    rw [leadLength_nat, toNat_ofNat (by omega), if_pos (by omega)]
  · refine .two ?_ ?_
    · rw [leadLength_nat, toNat_ofNat (by omega), if_neg (by omega), if_neg (by omega),
        if_pos (by omega)]
    · rw [inRange_first, toNat_ofNat (by omega), toNat_ofNat (by omega)]
      split_ifs <;> omega
  · refine .three ?_ ?_ (htail v)
    · rw [leadLength_nat, toNat_ofNat (by omega), if_neg (by omega), if_neg (by omega),
        if_neg (by omega), if_pos (by omega)]
    · rw [inRange_first, toNat_ofNat (by omega), toNat_ofNat (by omega)]
      split_ifs <;> omega
  · refine .four ?_ ?_ (htail (v / 64)) (htail v)
    · rw [leadLength_nat, toNat_ofNat (by omega), if_neg (by omega), if_neg (by omega),
        if_neg (by omega), if_neg (by omega), if_pos (by omega)]
    · rw [inRange_first, toNat_ofNat (by omega), toNat_ofNat (by omega)]
      split_ifs <;> omega

/-- The scalar value of a number that is none of the surrogates. -/
theorem exists_char {v : Nat} (h : v < 0xD800 ∨ 0xDFFF < v ∧ v < 0x110000) :
    ∃ c : Char, c.val.toNat = v :=
  ⟨Char.ofNatAux v h, rfl⟩

theorem ofNat_eq {b : UInt8} {n : Nat} (h : n = b.toNat) : UInt8.ofNat n = b := by
  rw [h, UInt8.ofNat_toNat]

/-- A number in base 64, cut behind each digit. -/
theorem two_digits {a b : Nat} (hb : b < 64) :
    (a * 64 + b) / 64 = a ∧ (a * 64 + b) % 64 = b := by
  omega

theorem three_digits {a b c : Nat} (hb : b < 64) (hc : c < 64) :
    ((a * 64 + b) * 64 + c) / 4096 = a ∧ ((a * 64 + b) * 64 + c) / 64 = a * 64 + b ∧
      ((a * 64 + b) * 64 + c) % 64 = c := by
  obtain ⟨hshift, hlast⟩ := two_digits (a := a * 64 + b) hc
  refine ⟨?_, hshift, hlast⟩
  rw [← Nat.div_div_eq_div_mul _ 64 64, hshift, (two_digits hb).1]

theorem four_digits {a b c d : Nat} (hb : b < 64) (hc : c < 64) (hd : d < 64) :
    (((a * 64 + b) * 64 + c) * 64 + d) / 262144 = a ∧
      (((a * 64 + b) * 64 + c) * 64 + d) / 4096 = a * 64 + b ∧
      (((a * 64 + b) * 64 + c) * 64 + d) / 64 = (a * 64 + b) * 64 + c ∧
      (((a * 64 + b) * 64 + c) * 64 + d) % 64 = d := by
  obtain ⟨hfirst, hshift, hlast⟩ := three_digits (a := a * 64 + b) hc hd
  refine ⟨?_, hfirst, hshift, hlast⟩
  rw [← Nat.div_div_eq_div_mul _ 4096 64, hfirst, (two_digits hb).1]

theorem leadLength_bounds (b : UInt8) :
    (leadLength b = 1 → b.toNat < 128) ∧
    (leadLength b = 2 → 194 ≤ b.toNat ∧ b.toNat < 224) ∧
    (leadLength b = 3 → 224 ≤ b.toNat ∧ b.toNat < 240) ∧
    (leadLength b = 4 → 240 ≤ b.toNat ∧ b.toNat < 245) := by
  rw [leadLength_nat]
  split_ifs <;> simp <;> omega

theorem inRange_first_bounds {lead b : UInt8}
    (h : inRange b (firstContinuationRange lead) = true) :
    0x80 ≤ b.toNat ∧ b.toNat ≤ 0xBF ∧
      (lead.toNat = 0xE0 → 0xA0 ≤ b.toNat) ∧ (lead.toNat = 0xED → b.toNat ≤ 0x9F) ∧
      (lead.toNat = 0xF0 → 0x90 ≤ b.toNat) ∧ (lead.toNat = 0xF4 → b.toNat ≤ 0x8F) := by
  rw [inRange_first] at h
  split_ifs at h <;> omega

theorem Sequence.exists_encodeChar {s : Bytes} (h : Sequence s) :
    ∃ c, String.utf8EncodeChar c = s := by
  cases h with
  | @one lead hl =>
    have hlead := (leadLength_bounds lead).1 hl
    obtain ⟨c, hc⟩ := exists_char (Or.inl (show lead.toNat < 0xD800 by omega))
    refine ⟨c, ?_⟩
    rw [String.utf8EncodeChar, hc, if_pos (by omega), UInt8.ofNat_toNat]
  | @two lead b₁ hl h₁ =>
    have hlead := (leadLength_bounds lead).2.1 hl
    obtain ⟨hlow, hhigh, -⟩ := inRange_first_bounds h₁
    obtain ⟨a, ha⟩ := Nat.exists_eq_add_of_le (show 192 ≤ lead.toNat by omega)
    obtain ⟨p, hp⟩ := Nat.exists_eq_add_of_le hlow
    obtain ⟨hshift, hlast⟩ := two_digits (a := a) (show p < 64 by omega)
    obtain ⟨c, hc⟩ := exists_char (v := a * 64 + p) (by omega)
    refine ⟨c, ?_⟩
    rw [String.utf8EncodeChar, hc, if_neg (by omega), if_pos (by omega), hshift, hlast,
      ofNat_eq (b := lead) (by omega), ofNat_eq (b := b₁) (by omega)]
  | @three lead b₁ b₂ hl h₁ h₂ =>
    have hlead := (leadLength_bounds lead).2.2.1 hl
    obtain ⟨hlow, hhigh, hE0, hED, -, -⟩ := inRange_first_bounds h₁
    have hsecond : 0x80 ≤ b₂.toNat ∧ b₂.toNat ≤ 0xBF := inRange_nat b₂ (0x80, 0xBF) |>.mp h₂
    obtain ⟨a, ha⟩ := Nat.exists_eq_add_of_le hlead.1
    obtain ⟨p, hp⟩ := Nat.exists_eq_add_of_le hlow
    obtain ⟨q, hq⟩ := Nat.exists_eq_add_of_le hsecond.1
    obtain ⟨c, hc⟩ := exists_char (v := (a * 64 + p) * 64 + q) (by omega)
    have hsize : 2047 < (a * 64 + p) * 64 + q ∧ (a * 64 + p) * 64 + q ≤ 65535 := by omega
    clear hE0 hED
    refine ⟨c, ?_⟩
    rw [String.utf8EncodeChar, hc, if_neg (by omega), if_neg (by omega), if_pos hsize.2]
    clear hsize hc
    obtain ⟨htop, hshift, hlast⟩ :=
      three_digits (a := a) (show p < 64 by omega) (show q < 64 by omega)
    rw [htop, hshift, hlast, two_digits (by omega) |>.2, Nat.mod_eq_of_lt (by omega),
      ofNat_eq (b := lead) (by omega), ofNat_eq (b := b₁) (by omega),
      ofNat_eq (b := b₂) (by omega)]
  | @four lead b₁ b₂ b₃ hl h₁ h₂ h₃ =>
    have hlead := (leadLength_bounds lead).2.2.2 hl
    obtain ⟨hlow, hhigh, -, -, hF0, hF4⟩ := inRange_first_bounds h₁
    have hsecond : 0x80 ≤ b₂.toNat ∧ b₂.toNat ≤ 0xBF := inRange_nat b₂ (0x80, 0xBF) |>.mp h₂
    have hthird : 0x80 ≤ b₃.toNat ∧ b₃.toNat ≤ 0xBF := inRange_nat b₃ (0x80, 0xBF) |>.mp h₃
    obtain ⟨a, ha⟩ := Nat.exists_eq_add_of_le hlead.1
    obtain ⟨p, hp⟩ := Nat.exists_eq_add_of_le hlow
    obtain ⟨q, hq⟩ := Nat.exists_eq_add_of_le hsecond.1
    obtain ⟨r, hr⟩ := Nat.exists_eq_add_of_le hthird.1
    have hsize : 65535 < ((a * 64 + p) * 64 + q) * 64 + r := by omega
    have hlast : ((a * 64 + p) * 64 + q) * 64 + r < 0x110000 := by omega
    clear hF0 hF4
    obtain ⟨c, hc⟩ := exists_char (.inr ⟨lt_trans (by decide) hsize, hlast⟩)
    refine ⟨c, ?_⟩
    rw [String.utf8EncodeChar, hc, if_neg (by omega), if_neg (by omega), if_neg (by omega)]
    clear hsize hlast hc
    obtain ⟨htop, hnext, hshift, hlast⟩ := four_digits (a := a) (show p < 64 by omega)
      (show q < 64 by omega) (show r < 64 by omega)
    rw [htop, hnext, hshift, hlast, two_digits (by omega) |>.2, two_digits (by omega) |>.2,
      Nat.mod_eq_of_lt (by omega), ofNat_eq (b := lead) (by omega), ofNat_eq (b := b₁) (by omega),
      ofNat_eq (b := b₂) (by omega), ofNat_eq (b := b₃) (by omega)]

theorem isValidUtf8_encode (s : List Char) : isValidUtf8 (encode s) = true := by
  induction s with
  | nil => rfl
  | cons c rest ih =>
    rw [encode, List.flatMap_cons, (sequence_encodeChar c).valid]
    exact ih

theorem exists_encode {t : Bytes} (h : isValidUtf8 t = true) : ∃ s, encode s = t := by
  by_cases hne : t = []
  · exact ⟨[], hne.symm⟩
  · obtain ⟨first, rest, hsplit, hfirst, hrest⟩ := exists_sequence h hne
    have hshorter : rest.length < t.length := by
      rw [hsplit, List.length_append]
      cases hfirst <;> simp
    obtain ⟨c, rfl⟩ := hfirst.exists_encodeChar
    obtain ⟨s, rfl⟩ := exists_encode hrest
    exact ⟨c :: s, hsplit.symm⟩
termination_by t.length

theorem encode_injective : Function.Injective encode := by
  intro s s' h
  have hbytes : s.utf8Encode = s'.utf8Encode := congrArg List.toByteArray h
  have hstrings : String.ofList s = String.ofList s' := by
    rw [← String.toByteArray_inj, String.toByteArray_ofList, String.toByteArray_ofList, hbytes]
  rw [← @String.toList_ofList s, hstrings, String.toList_ofList]

theorem isValidUtf8_iff (t : Bytes) : isValidUtf8 t = true ↔ ∃! s, encode s = t := by
  constructor
  · intro h
    obtain ⟨s, rfl⟩ := exists_encode h
    exact ⟨s, rfl, fun s' h' => encode_injective h'⟩
  · rintro ⟨s, rfl, -⟩
    exact isValidUtf8_encode s

theorem countCodePointsFrom_encode (n : Nat) (s : List Char) :
    countCodePointsFrom n (encode s) = some (n + s.length) := by
  induction s generalizing n with
  | nil => rfl
  | cons c rest ih =>
    have hnext : encode (c :: rest) = String.utf8EncodeChar c ++ encode rest := List.flatMap_cons
    rw [hnext, (sequence_encodeChar c).count, ih, List.length_cons, Nat.add_assoc, Nat.add_comm 1]

theorem countCodePointsFrom_isSome (n : Nat) (t : Bytes) :
    (countCodePointsFrom n t).isSome = isValidUtf8 t := by
  fun_induction isValidUtf8 t generalizing n with
  | case1 => rfl
  | case2 lead rest hl ih => rw [countCodePointsFrom.eq_def, ← ih (n + 1)]; simp [hl]
  | case3 lead b₁ rest hl ih =>
    rw [countCodePointsFrom.eq_def, ← ih (n + 1)]
    simp only [hl]
    split <;> simp_all
  | case4 lead b₁ b₂ rest hl ih =>
    rw [countCodePointsFrom.eq_def, ← ih (n + 1)]
    simp only [hl]
    split <;> simp_all
  | case5 lead b₁ b₂ b₃ rest hl ih =>
    rw [countCodePointsFrom.eq_def, ← ih (n + 1)]
    simp only [hl]
    split <;> simp_all
  | case6 => simp_all [countCodePointsFrom]

/-- The number of scalar values of a text, and nothing for what is none. -/
theorem countCodePoints_eq_some (t : Bytes) (n : Nat) : countCodePoints t = some n ↔
    ∃ s, encode s = t ∧ s.length = n := by
  constructor
  · intro h
    have hvalid : isValidUtf8 t = true := by
      rw [← countCodePointsFrom_isSome 0, ← countCodePoints, h]
      rfl
    obtain ⟨s, rfl⟩ := exists_encode hvalid
    rw [countCodePoints, countCodePointsFrom_encode, Nat.zero_add] at h
    exact ⟨s, rfl, Option.some.inj h⟩
  · rintro ⟨s, rfl, rfl⟩
    rw [countCodePoints, countCodePointsFrom_encode, Nat.zero_add]

section Truncation

variable {maxBytes size fuel i : Nat} {t : Bytes}

theorem boundary_le (h : i ≤ maxBytes) : boundary maxBytes size fuel t i ≤ maxBytes := by
  induction fuel generalizing t i with
  | zero => exact h
  | succ fuel ih =>
    cases t with
    | nil => exact h
    | cons b rest =>
      unfold boundary
      generalize (if leadLength b = 0 then 1 else leadLength b) = step
      dsimp only
      split
      · exact h
      · split
        · exact h
        · rename_i hfits _
          exact ih (Nat.le_of_not_lt hfits)

/-- One step of the walk at the opening byte of a sequence that is there in full. -/
theorem boundary_cons {b : UInt8} {rest : Bytes} (hlead : leadLength b ≠ 0)
    (hinside : leadLength b ≤ (b :: rest).length) (hsize : i + (b :: rest).length ≤ size) :
    boundary maxBytes size (fuel + 1) (b :: rest) i =
      if maxBytes < i + leadLength b then i
      else boundary maxBytes size fuel ((b :: rest).drop (leadLength b)) (i + leadLength b) := by
  have hdrop : rest.drop (leadLength b - 1) = (b :: rest).drop (leadLength b) := by
    obtain ⟨n, hn⟩ := Nat.exists_eq_succ_of_ne_zero hlead
    rw [hn]
    simp
  have hin : ¬size < i + leadLength b := by omega
  rw [boundary]
  simp only [hlead, if_false, hin, hdrop]

/-- The walk passes every well-formed prefix that fits, whatever follows it. -/
theorem boundary_longest (hsize : i + t.length ≤ size) (hfuel : t.length ≤ fuel) {q : Bytes}
    (hq : q <+: t) (hvalid : isValidUtf8 q = true) (hfits : i + q.length ≤ maxBytes) :
    i + q.length ≤ boundary maxBytes size fuel t i := by
  induction fuel generalizing t i q with
  | zero =>
    have hnone : q.length ≤ 0 := le_trans hq.length_le hfuel
    have hge := boundary_ge maxBytes size 0 t i
    omega
  | succ fuel ih =>
    cases q with
    | nil => exact boundary_ge maxBytes size (fuel + 1) t i
    | cons b q =>
      have hlength := hq.length_le
      obtain ⟨suffix, rfl⟩ := hq
      rw [List.cons_append] at hsize hfuel hlength ⊢
      obtain ⟨hlead, hinside, -, htail⟩ := (isValidUtf8_cons b q).mp hvalid
      have hone : ¬maxBytes < i + leadLength b := by omega
      rw [boundary_cons hlead (le_trans hinside hlength) hsize, if_neg hone]
      have hnext : (b :: q).drop (leadLength b) <+: (b :: (q ++ suffix)).drop (leadLength b) :=
        (List.prefix_append (b :: q) suffix).drop _
      have hshorter := ih (i := i + leadLength b) (by rw [List.length_drop]; omega)
        (by rw [List.length_drop]; omega)
        hnext htail (by rw [List.length_drop]; omega)
      rw [List.length_drop] at hshorter
      omega

/-- At most three bytes stay unused. -/
theorem boundary_close (ht : isValidUtf8 t = true) (hsize : i + t.length = size)
    (hfuel : t.length ≤ fuel) (hlong : maxBytes < size) :
    maxBytes < boundary maxBytes size fuel t i + 4 := by
  induction fuel generalizing t i with
  | zero =>
    have hge := boundary_ge maxBytes size 0 t i
    omega
  | succ fuel ih =>
    cases t with
    | nil =>
      have hge := boundary_ge maxBytes size (fuel + 1) [] i
      rw [List.length_nil] at hsize
      omega
    | cons b rest =>
      obtain ⟨hlead, hinside, -, hrest⟩ := (isValidUtf8_cons b rest).mp ht
      have hle := leadLength_le b
      rw [boundary_cons hlead hinside (by omega)]
      split
      · omega
      · exact ih hrest (by rw [List.length_drop]; omega) (by rw [List.length_drop]; omega)

/-- The cut is the longest well-formed prefix within the bound. -/
structure LongestPrefix (t : Bytes) (maxBytes : Nat) (p : Bytes) : Prop where
  starts : p <+: t
  valid : isValidUtf8 p = true
  fits : p.length ≤ maxBytes
  longest : ∀ q, q <+: t → isValidUtf8 q = true → q.length ≤ maxBytes → q <+: p

/-- A well-formed prefix that is not empty begins with the same code point. -/
theorem prefix_cons {b : UInt8} {rest q : Bytes} (hq : q <+: b :: rest)
    (hvalid : isValidUtf8 q = true) (hne : q ≠ []) :
    leadLength b ≤ q.length ∧ isValidUtf8 (q.drop (leadLength b)) = true := by
  rcases q with _ | ⟨c, q⟩
  · exact absurd rfl hne
  · obtain ⟨rfl, -⟩ := List.cons_prefix_cons.mp hq
    obtain ⟨-, hlong, -, htail⟩ := (isValidUtf8_cons c q).mp hvalid
    exact ⟨hlong, htail⟩

namespace LongestPrefix

theorem nil (h : ∀ q, q <+: t → isValidUtf8 q = true → q.length ≤ maxBytes → q = []) :
    LongestPrefix t maxBytes [] :=
  ⟨List.nil_prefix, rfl, Nat.zero_le maxBytes, fun q hq hvalid hfits => by rw [h q hq hvalid hfits]⟩

/-- One code point more. -/
theorem cons {b : UInt8} {rest p : Bytes} (ht : isValidUtf8 (b :: rest) = true)
    (hroom : leadLength b ≤ maxBytes)
    (h : LongestPrefix ((b :: rest).drop (leadLength b)) (maxBytes - leadLength b) p) :
    LongestPrefix (b :: rest) maxBytes ((b :: rest).take (leadLength b) ++ p) := by
  obtain ⟨-, hinside, hfirst, -⟩ := (isValidUtf8_cons b rest).mp ht
  refine ⟨?_, ?_, ?_, fun q hq hvalid hfits => ?_⟩
  · conv_rhs => rw [← List.take_append_drop (leadLength b) (b :: rest)]
    exact (List.prefix_append_right_inj _).mpr h.starts
  · rw [isValidUtf8_append hfirst]
    exact h.valid
  · have hfits := h.fits
    rw [List.length_append, List.length_take_of_le hinside]
    omega
  · by_cases hne : q = []
    · rw [hne]
      exact List.nil_prefix
    · obtain ⟨hlong, htail⟩ := prefix_cons hq hvalid hne
      have hhead : q.take (leadLength b) = (b :: rest).take (leadLength b) := by
        obtain ⟨suffix, hsuffix⟩ := hq
        rw [← hsuffix, List.take_append_of_le_length hlong]
      have hlast := h.longest _ (hq.drop (leadLength b)) htail (by rw [List.length_drop]; omega)
      rw [← List.take_append_drop (leadLength b) q, hhead]
      exact (List.prefix_append_right_inj _).mpr hlast

end LongestPrefix

/-- A well-formed cut is the longest one, also of a text that is not well-formed behind it. -/
theorem truncateToCodePoint_longest_of_valid {maxBytes : Nat}
    (hvalid : isValidUtf8 (truncateToCodePoint t maxBytes) = true) :
    LongestPrefix t maxBytes (truncateToCodePoint t maxBytes) := by
  unfold truncateToCodePoint at hvalid ⊢
  split
  · rename_i hshort
    rw [if_pos hshort] at hvalid
    exact ⟨List.prefix_refl t, hvalid, hshort, fun q hq _ _ => hq⟩
  · rename_i hlong
    rw [if_neg hlong] at hvalid
    have hbound : boundary maxBytes t.length t.length t 0 ≤ maxBytes :=
      boundary_le (Nat.zero_le maxBytes)
    refine ⟨List.take_prefix _ t, hvalid, ?_, fun q hq hqvalid hqfits => ?_⟩
    · exact le_trans (List.length_take_le _ t) hbound
    · have hreach := boundary_longest (le_of_eq (Nat.zero_add t.length))
        (le_refl t.length) hq hqvalid
        (show 0 + q.length ≤ maxBytes by omega)
      rw [Nat.zero_add] at hreach
      exact List.prefix_take_iff.mpr ⟨hq, hreach⟩

theorem truncateToCodePoint_longest (ht : isValidUtf8 t = true) (maxBytes : Nat) :
    LongestPrefix t maxBytes (truncateToCodePoint t maxBytes) :=
  truncateToCodePoint_longest_of_valid (isValidUtf8_truncateToCodePoint ht maxBytes)

theorem truncateToCodePoint_fits (h : t.length ≤ maxBytes) :
    truncateToCodePoint t maxBytes = t := if_pos h

theorem truncateToCodePoint_close (ht : isValidUtf8 t = true) (hlong : maxBytes < t.length) :
    maxBytes ≤ (truncateToCodePoint t maxBytes).length + 3 := by
  have hclose := boundary_close ht (Nat.zero_add t.length) (le_refl t.length) hlong
  have hbound : boundary maxBytes t.length t.length t 0 ≤ maxBytes :=
    boundary_le (Nat.zero_le maxBytes)
  rw [truncateToCodePoint, if_neg (Nat.not_le.mpr hlong), List.length_take]
  omega

theorem truncateToCodePoint_ne_nil (ht : isValidUtf8 t = true) (hne : t ≠ [])
    (hroom : 4 ≤ maxBytes) :
    truncateToCodePoint t maxBytes ≠ [] := by
  intro hnone
  by_cases hfits : t.length ≤ maxBytes
  · exact hne (by rwa [truncateToCodePoint_fits hfits] at hnone)
  · have hclose := truncateToCodePoint_close ht (Nat.lt_of_not_le hfits)
    rw [hnone, List.length_nil] at hclose
    omega

end Truncation

/-- The helpers are exact: the validator and the counter on every byte string, the truncation on
every text and bound. -/
theorem utf8_helpers_exact :
    (∀ t, isValidUtf8 t = true ↔ ∃! s, encode s = t) ∧
      (∀ t n, countCodePoints t = some n ↔ ∃ s, encode s = t ∧ s.length = n) ∧
      ∀ t, isValidUtf8 t = true → ∀ maxBytes,
        LongestPrefix t maxBytes (truncateToCodePoint t maxBytes) ∧
          (t.length ≤ maxBytes → truncateToCodePoint t maxBytes = t) ∧
          (maxBytes < t.length → maxBytes ≤ (truncateToCodePoint t maxBytes).length + 3) ∧
          (4 ≤ maxBytes → t ≠ [] → truncateToCodePoint t maxBytes ≠ []) :=
  ⟨isValidUtf8_iff, countCodePoints_eq_some, fun _ ht maxBytes =>
    ⟨truncateToCodePoint_longest ht maxBytes, truncateToCodePoint_fits,
      truncateToCodePoint_close ht, fun hroom hne => truncateToCodePoint_ne_nil ht hne hroom⟩⟩

/-- The euro sign does not fit into two bytes. -/
theorem utf8_helpers_exact_euro :
    countCodePoints [0x61, 0xE2, 0x82, 0xAC] = some 2 ∧
      LongestPrefix [0x61, 0xE2, 0x82, 0xAC] 3 (truncateToCodePoint [0x61, 0xE2, 0x82, 0xAC] 3) :=
  ⟨by decide, (utf8_helpers_exact.2.2 _ (by decide) 3).1⟩

end Orangutan.Core.Str
