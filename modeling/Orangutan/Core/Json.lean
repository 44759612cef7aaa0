import Orangutan.Core.Str

/-!
# JSON text

The program writes JSON through one serializer: objects keep their keys in byte
order, arrays their elements in order, and a string is copied except that quote,
backslash and control characters are escaped. An object below lists its fields in
the order the serializer prints them. Strings handed to the serializer are well
formed, so its rejection of broken UTF-8 is not a branch of this model.
-/

namespace Orangutan.Core

set_option autoImplicit false

open Str

/-- `std::to_string` of an unsigned number. -/
def decimal (n : Nat) : Bytes := (Nat.toDigits 10 n).map fun c => UInt8.ofNat c.toNat

/-- `std::to_string` of a signed number. -/
def signedDecimal : Int → Bytes
  | .ofNat n => decimal n
  | .negSucc n => text "-" ++ decimal (n + 1)

theorem decimal_digits (n : Nat) : ∀ b ∈ decimal n, 0x30 ≤ b ∧ b ≤ 0x39 := by
  intro b hb
  obtain ⟨c, hc, rfl⟩ := List.mem_map.mp hb
  have hd := Nat.isDigit_of_mem_toDigits (by decide) (by decide) hc
  simp only [Char.isDigit, Bool.and_eq_true, decide_eq_true_eq] at hd
  have h1 : 48 ≤ c.toNat := hd.1
  have h2 : c.toNat ≤ 57 := hd.2
  constructor
  · rw [UInt8.le_iff_toNat_le, UInt8.toNat_ofNat']
    show 48 ≤ c.toNat % 2 ^ 8
    omega
  · rw [UInt8.le_iff_toNat_le, UInt8.toNat_ofNat']
    show c.toNat % 2 ^ 8 ≤ 57
    omega

/-- The digits of a number, read back as characters. -/
theorem decimal_chars (n : Nat) :
    (decimal n).map (fun b => Char.ofNat b.toNat) = Nat.toDigits 10 n := by
  rw [decimal, List.map_map]
  refine (List.map_congr_left fun c hc => ?_).trans (List.map_id _)
  have hd := Nat.isDigit_of_mem_toDigits (by decide) (by decide) hc
  simp only [Char.isDigit, Bool.and_eq_true, decide_eq_true_eq] at hd
  have h2 : c.toNat ≤ 57 := hd.2
  have hmod : c.toNat % 2 ^ 8 = c.toNat := by omega
  simp only [Function.comp_apply, UInt8.toNat_ofNat', hmod, Char.ofNat_toNat, id_eq]

theorem decimal_injective {m n : Nat} (h : decimal m = decimal n) : m = n := by
  have hdigits : Nat.toDigits 10 m = Nat.toDigits 10 n := by
    rw [← decimal_chars m, ← decimal_chars n, h]
  rw [← Nat.ofDigitChars_ten_toDigits (n := m), hdigits, Nat.ofDigitChars_ten_toDigits]

inductive Json
  | null
  | bool (b : Bool)
  | num (n : Nat)
  | str (s : Bytes)
  | arr (items : List Json)
  | obj (fields : List (Bytes × Json))

namespace Json

def hexNibble (value : Nat) : UInt8 := (text "0123456789abcdef").getD value 0

/-- One byte of a string literal. -/
def escapeByte (b : UInt8) : Bytes :=
  if b = 0x22 then text "\\\""
  else if b = 0x5C then text "\\\\"
  else if b = 0x08 then text "\\b"
  else if b = 0x0C then text "\\f"
  else if b = 0x0A then text "\\n"
  else if b = 0x0D then text "\\r"
  else if b = 0x09 then text "\\t"
  else if b < 0x20 then text "\\u00" ++ [hexNibble (b.toNat / 16), hexNibble (b.toNat % 16)]
  else [b]

def escape (s : Bytes) : Bytes := s.flatMap escapeByte

def dumpString (s : Bytes) : Bytes := 0x22 :: (escape s ++ [0x22])

mutual

def dump : Json → Bytes
  | null => text "null"
  | bool true => text "true"
  | bool false => text "false"
  | num n => decimal n
  | str s => dumpString s
  | arr items => 0x5B :: (dumpItems items ++ [0x5D])
  | obj fields => 0x7B :: (dumpFields fields ++ [0x7D])

def dumpItems : List Json → Bytes
  | [] => []
  | [item] => dump item
  | item :: rest => dump item ++ 0x2C :: dumpItems rest

def dumpFields : List (Bytes × Json) → Bytes
  | [] => []
  | [(key, value)] => dumpString key ++ 0x3A :: dump value
  | (key, value) :: rest => dumpString key ++ 0x3A :: (dump value ++ 0x2C :: dumpFields rest)

end

theorem hexNibble_ascii : ∀ n < 16, 0x20 ≤ hexNibble n ∧ hexNibble n < 0x80 := by decide +kernel

/-- A byte is copied, or it is an ASCII byte written as a printable sequence. -/
theorem escapeByte_cases (b : UInt8) :
    (escapeByte b = [b] ∧ ¬ b < 0x20) ∨
    (b < 0x80 ∧ (∀ c ∈ escapeByte b, 0x20 ≤ c ∧ c < 0x80) ∧
      (¬ b < 0x20 → (escapeByte b).length = 2)) := by
  have printable {t : Bytes} (h : t.all (fun c => decide (0x20 ≤ c ∧ c < 0x80)) = true) :
      ∀ c ∈ t, 0x20 ≤ c ∧ c < 0x80 := List.all_iff_forall_prop.mp h
  by_cases hshort : b ∈ ([0x22, 0x5C, 0x08, 0x0C, 0x0A, 0x0D, 0x09] : Bytes)
  · have hpairs : ∀ b ∈ ([0x22, 0x5C, 0x08, 0x0C, 0x0A, 0x0D, 0x09] : Bytes),
        b < 0x80 ∧ (escapeByte b).all (fun c => decide (0x20 ≤ c ∧ c < 0x80)) = true ∧
          (escapeByte b).length = 2 := by decide +kernel
    obtain ⟨hascii, hall, hlength⟩ := hpairs b hshort
    exact .inr ⟨hascii, printable hall, fun _ => hlength⟩
  simp only [List.mem_cons, List.not_mem_nil, or_false, not_or] at hshort
  obtain ⟨h₁, h₂, h₃, h₄, h₅, h₆, h₇⟩ := hshort
  unfold escapeByte
  rw [if_neg h₁, if_neg h₂, if_neg h₃, if_neg h₄, if_neg h₅, if_neg h₆, if_neg h₇]
  by_cases h₈ : b < 0x20
  · rw [if_pos h₈]
    refine .inr ⟨UInt8.lt_trans h₈ (by decide), fun c hc => ?_, fun h => absurd h₈ h⟩
    have hb : b.toNat < 32 := h₈
    rcases List.mem_append.mp hc with hc | hc
    · exact printable (by decide +kernel) c hc
    · simp only [List.mem_cons, List.not_mem_nil, or_false] at hc
      rcases hc with rfl | rfl
      · exact hexNibble_ascii _ (by omega)
      · exact hexNibble_ascii _ (by omega)
  · rw [if_neg h₈]
    exact .inl ⟨rfl, h₈⟩

theorem escapeByte_printable (b : UInt8) : ∀ c ∈ escapeByte b, ¬ c < 0x20 := by
  intro c hc
  rcases escapeByte_cases b with ⟨h, hb⟩ | ⟨-, h, -⟩
  · rw [h, List.mem_singleton] at hc
    rwa [hc]
  · exact UInt8.not_lt.mpr (h c hc).1

theorem escapeByte_ascii (b : UInt8) (hb : b < 0x80) : ∀ c ∈ escapeByte b, c < 0x80 := by
  intro c hc
  rcases escapeByte_cases b with ⟨h, -⟩ | ⟨-, h, -⟩
  · rw [h, List.mem_singleton] at hc
    rwa [hc]
  · exact (h c hc).2

theorem escapeByte_other (b : UInt8) (hb : ¬ b < 0x80) : escapeByte b = [b] := by
  rcases escapeByte_cases b with ⟨h, -⟩ | ⟨h, -⟩
  · exact h
  · exact absurd h hb

theorem escapeByte_length (b : UInt8) (hb : ¬ b < 0x20) : (escapeByte b).length ≤ 2 := by
  rcases escapeByte_cases b with ⟨h, -⟩ | ⟨-, -, h⟩
  · rw [h]
    exact Nat.le_succ 1
  · rw [h hb]

/-- Printable text at most doubles. -/
theorem escape_length_le {s : Bytes} (h : ∀ b ∈ s, ¬ b < 0x20) :
    (escape s).length ≤ 2 * s.length := by
  induction s with
  | nil => exact Nat.le_refl _
  | cons b s ih =>
    have hb := escapeByte_length b (h b List.mem_cons_self)
    have ih := ih fun c hc => h c (List.mem_cons_of_mem b hc)
    have hcons : (escape (b :: s)).length = (escapeByte b).length + (escape s).length := by
      simp [escape]
    rw [hcons, List.length_cons]
    omega

mutual

/-- Every string of the value satisfies `p`, keys included. -/
def Strings (p : Bytes → Prop) : Json → Prop
  | null => True
  | bool _ => True
  | num _ => True
  | str s => p s
  | arr items => ItemStrings p items
  | obj fields => FieldStrings p fields

def ItemStrings (p : Bytes → Prop) : List Json → Prop
  | [] => True
  | item :: rest => Strings p item ∧ ItemStrings p rest

def FieldStrings (p : Bytes → Prop) : List (Bytes × Json) → Prop
  | [] => True
  | (key, value) :: rest => p key ∧ Strings p value ∧ FieldStrings p rest

end

/-- A property of texts that survives the serializer: it holds of printable ASCII,
of the escape of a string, and of a text put together from two. -/
structure Serial (p q : Bytes → Prop) : Prop where
  ascii : ∀ t : Bytes, (∀ c ∈ t, 0x20 ≤ c ∧ c < 0x80) → q t
  escape : ∀ s, p s → q (escape s)
  append : ∀ t u, q t → q u → q (t ++ u)

namespace Serial

variable {p q : Bytes → Prop}

theorem cons (h : Serial p q) {c : UInt8} (hc : 0x20 ≤ c ∧ c < 0x80) {t : Bytes} (ht : q t) :
    q (c :: t) := by
  refine h.append [c] t (h.ascii [c] fun b hb => ?_) ht
  rw [List.mem_singleton.mp hb]
  exact hc

theorem single (h : Serial p q) {c : UInt8} (hc : 0x20 ≤ c ∧ c < 0x80) : q [c] :=
  h.cons hc (h.ascii [] fun _ hb => by cases hb)

theorem dumpString (h : Serial p q) {s : Bytes} (hs : p s) : q (dumpString s) :=
  h.cons (by decide) (h.append _ _ (h.escape s hs) (h.single (by decide)))

theorem decimal (h : Serial p q) (n : Nat) : q (decimal n) := by
  refine h.ascii _ fun c hc => ?_
  obtain ⟨hlow, hhigh⟩ := decimal_digits n c hc
  exact ⟨UInt8.le_trans (by decide) hlow, UInt8.lt_of_le_of_lt hhigh (by decide)⟩

mutual

theorem dump (h : Serial p q) : ∀ j : Json, j.Strings p → q j.dump
  | null, _ => by
    rw [Json.dump]
    exact h.ascii _ (by decide +kernel)
  | bool true, _ => by
    rw [Json.dump]
    exact h.ascii _ (by decide +kernel)
  | bool false, _ => by
    rw [Json.dump]
    exact h.ascii _ (by decide +kernel)
  | num n, _ => by
    rw [Json.dump]
    exact h.decimal n
  | str s, hs => by
    rw [Json.dump]
    exact h.dumpString hs
  | arr items, hs => by
    rw [Json.dump]
    exact h.cons (by decide) (h.append _ _ (h.dumpItems items hs) (h.single (by decide)))
  | obj fields, hs => by
    rw [Json.dump]
    exact h.cons (by decide) (h.append _ _ (h.dumpFields fields hs) (h.single (by decide)))

theorem dumpItems (h : Serial p q) : ∀ items : List Json, ItemStrings p items → q (dumpItems items)
  | [], _ => h.ascii [] fun _ hb => by cases hb
  | [item], hs => by
    rw [Json.dumpItems]
    exact h.dump item hs.1
  | item :: next :: rest, hs => by
    rw [Json.dumpItems]
    · exact h.append _ _ (h.dump item hs.1) (h.cons (by decide) (h.dumpItems (next :: rest) hs.2))
    · exact fun he => by cases he

theorem dumpFields (h : Serial p q) :
    ∀ fields : List (Bytes × Json), FieldStrings p fields → q (dumpFields fields)
  | [], _ => h.ascii [] fun _ hb => by cases hb
  | [(key, value)], hs => by
    rw [Json.dumpFields]
    exact h.append _ _ (h.dumpString hs.1) (h.cons (by decide) (h.dump value hs.2.1))
  | (key, value) :: next :: rest, hs => by
    rw [Json.dumpFields]
    · exact h.append _ _ (h.dumpString hs.1) (h.cons (by decide)
        (h.append _ _ (h.dump value hs.2.1)
          (h.cons (by decide) (h.dumpFields (next :: rest) hs.2.2))))
    · exact fun he => by cases he

end

/-- What is written holds no control character, whatever the strings are. -/
theorem printable : Serial (fun _ => True) fun t => ∀ c ∈ t, ¬ c < 0x20 where
  ascii := fun _ h c hc => UInt8.not_lt.mpr (h c hc).1
  escape := fun s _ c hc => by
    obtain ⟨b, -, hb⟩ := List.mem_flatMap.mp hc
    exact escapeByte_printable b c hb
  append := fun _ _ ht hu c hc => (List.mem_append.mp hc).elim (ht c) (hu c)

/-- Well-formed strings are written as well-formed text. -/
theorem utf8 : Serial (fun s => isValidUtf8 s = true) fun t => isValidUtf8 t = true where
  ascii := fun t h => by
    have hascii := isValidUtf8_ascii_append (fun c hc => (h c hc).2) ([] : Bytes)
    rw [List.append_nil] at hascii
    exact hascii
  escape := fun _ hs => isValidUtf8_flatMap escapeByte_ascii escapeByte_other hs
  append := fun _ _ ht hu => (isValidUtf8_append ht).trans hu

end Serial

end Json

end Orangutan.Core
