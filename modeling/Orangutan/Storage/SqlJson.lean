import Orangutan.Core.Json
import Orangutan.Core.Message

/-!
# Checkpoints in SQL

What the JSON functions of SQL make of a value, the text of a checkpoint, and the value
that such a text is read as. How SQL reads other texts is a parameter of the repository.
-/

namespace Orangutan.Storage

set_option autoImplicit false

open Orangutan.Core Orangutan.Core.Str

/-- A JSON value; of a real number only the literal matters. -/
inductive SqlJson
  | null
  | boolean (b : Bool)
  | integer (n : Int)
  | real (literal : Bytes)
  | text (t : Bytes)
  | array (items : List SqlJson)
  | object (fields : List (Bytes × SqlJson))

namespace SqlJson

def isObject : SqlJson → Bool
  | object _ => true
  | _ => false

/-- One step of a path: the first member with the key. -/
def member (key : Bytes) : SqlJson → Option SqlJson
  | object fields => (fields.find? fun field => field.1 = key).map (·.2)
  | _ => none

/-- The member as the reader of the program finds it, which keeps the last of equal keys. -/
def lastMember (key : Bytes) : SqlJson → Option SqlJson
  | object fields => (fields.reverse.find? fun field => field.1 = key).map (·.2)
  | _ => none

def setField (key : Bytes) (value : SqlJson) : List (Bytes × SqlJson) → List (Bytes × SqlJson)
  | [] => [(key, value)]
  | field :: rest => if field.1 = key then (key, value) :: rest
      else field :: setField key value rest

/-- `json_set` of a member. -/
def setMember (j : SqlJson) (key : Bytes) (value : SqlJson) : SqlJson :=
  match j with
  | object fields => object (setField key value fields)
  | j => j

/-- `COALESCE(json_extract(..), 0)`; no call stores another type there. -/
def integerOr0 : Option SqlJson → Int
  | some (integer n) => n
  | _ => 0

/-- `COALESCE(json_extract(..), '')`; no call stores another type there. -/
def textOrEmpty : Option SqlJson → Bytes
  | some (text t) => t
  | _ => []

end SqlJson

/-- `length` of a text: its code points before the first NUL. -/
def textLength (t : Bytes) : Nat := (t.takeWhile (· ≠ 0)).countP fun b => b < 0x80 || 0xC0 ≤ b

def coveredKey : Bytes := text "covered_sequence"
def revisionKey : Bytes := text "revision"
def summaryKey : Bytes := text "summary"
def contextKey : Bytes := text "oran_working_context"

def checkpointValue (checkpoint : WorkingContext) : SqlJson :=
  .object [(coveredKey, .integer checkpoint.coveredSequence),
    (revisionKey, .integer checkpoint.revision), (summaryKey, .text checkpoint.summary)]

/-- The text of a checkpoint whose summary is well formed. -/
def dumpCheckpoint (checkpoint : WorkingContext) : Bytes :=
  text "\x7b\"covered_sequence\":" ++ signedDecimal checkpoint.coveredSequence ++
    (text ",\"revision\":" ++ signedDecimal checkpoint.revision ++
      (text ",\"summary\":" ++ Json.dumpString checkpoint.summary ++ text "\x7d"))

@[simp] theorem member_covered (c : WorkingContext) :
    (checkpointValue c).member coveredKey = some (.integer c.coveredSequence) := by
  rfl

@[simp] theorem member_revision (c : WorkingContext) :
    (checkpointValue c).member revisionKey = some (.integer c.revision) := by
  rfl

@[simp] theorem member_summary (c : WorkingContext) :
    (checkpointValue c).member summaryKey = some (.text c.summary) := by
  rfl

/-- A sign or a digit. -/
theorem mem_signedDecimal {n : Int} {b : UInt8} (h : b ∈ signedDecimal n) : b = 0x2D ∨
    (0x30 ≤ b ∧ b ≤ 0x39) := by
  cases n with
  | ofNat n => exact .inr (decimal_digits n b h)
  | negSucc n =>
    rcases List.mem_cons.mp (show b ∈ 0x2D :: decimal (n + 1) from h) with rfl | hb
    · exact .inl rfl
    · exact .inr (decimal_digits _ b hb)

theorem signedDecimal_printable (n : Int) : ∀ b ∈ signedDecimal n, 0x20 ≤ b ∧ b < 0x80 := by
  intro b hb
  rcases mem_signedDecimal hb with rfl | ⟨hlow, hhigh⟩
  · decide
  · exact ⟨UInt8.le_trans (by decide) hlow, UInt8.lt_of_le_of_lt hhigh (by decide)⟩

/-- The text of a checkpoint with a well-formed summary is well formed. -/
theorem dumpCheckpoint_utf8 {c : WorkingContext} (h : isValidUtf8 c.summary = true) :
    isValidUtf8 (dumpCheckpoint c) = true := by
  have serial := Json.Serial.utf8
  have htext : ∀ t ∈ [text "\x7b\"covered_sequence\":", text ",\"revision\":", text ",\"summary\":",
    text "\x7d"],
      isValidUtf8 t = true := by decide +kernel
  have hnumber : ∀ n, isValidUtf8 (signedDecimal n) = true :=
    fun n => serial.ascii _ (signedDecimal_printable n)
  unfold dumpCheckpoint
  refine serial.append _ _ (serial.append _ _ (htext _ (by simp)) (hnumber _)) ?_
  refine serial.append _ _ (serial.append _ _ (htext _ (by simp)) (hnumber _)) ?_
  exact serial.append _ _ (serial.append _ _ (htext _ (by simp)) (serial.dumpString h))
    (htext _ (by simp))

/-- How SQL reads JSON text. Only what it makes of the text of a checkpoint is known. -/
structure JsonReader where
  read : Bytes → Option SqlJson
  read_checkpoint : ∀ c : WorkingContext, isValidUtf8 c.summary = true →
    read (dumpCheckpoint c) = some (checkpointValue c)

def readDecimal (t : Bytes) : Nat := Nat.ofDigitChars 10 (t.map fun b => Char.ofNat b.toNat) 0

def readSigned (t : Bytes) : Int :=
  if t.head? = some 0x2D then -(readDecimal t.tail : Int) else readDecimal t

/-- A number up to the comma after it. -/
def readNumber (t : Bytes) : Int × Bytes :=
    (readSigned (t.takeWhile (· ≠ 0x2C)), t.dropWhile (· ≠ 0x2C))

def nibbleOf (c : UInt8) : Nat := if c < 0x3A then c.toNat - 0x30 else c.toNat - 0x57

/-- One character of a string literal that is not its closing quote. -/
def unescapeOne : Bytes → Option (UInt8 × Bytes)
  | [] => none
  | b :: rest =>
    if b ≠ 0x5C then some (b, rest)
    else
      match rest with
      | [] => none
      | c :: rest =>
        if c = 0x75 then
          match rest with
          | _ :: _ :: hi :: lo :: rest => some (UInt8.ofNat (16 * nibbleOf hi + nibbleOf lo), rest)
          | _ => none
        else
          some (if c = 0x62 then 0x08 else if c = 0x66 then 0x0C else if c = 0x6E then 0x0A
            else if c = 0x72 then 0x0D else if c = 0x74 then 0x09 else c, rest)

/-- A string literal after its opening quote, with the text behind it. -/
def readString : Nat → Bytes → Option (Bytes × Bytes)
  | 0, _ => none
  | fuel + 1, t =>
    if t.head? = some 0x22 then some ([], t.tail)
    else
      match unescapeOne t with
      | none => none
      | some (c, rest) => (readString fuel rest).map fun found => (c :: found.1, found.2)

theorem readDecimal_decimal (n : Nat) : readDecimal (decimal n) = n := by
  rw [readDecimal, decimal_chars, Nat.ofDigitChars_ten_toDigits]

theorem decimal_head (n : Nat) : (decimal n).head? ≠ some 0x2D := by
  intro h
  have hdigit := decimal_digits n 0x2D (List.mem_of_head? h)
  exact absurd hdigit.1 (by decide)

theorem readSigned_signedDecimal (n : Int) : readSigned (signedDecimal n) = n := by
  cases n with
  | ofNat n =>
    rw [signedDecimal, readSigned, if_neg (decimal_head n), readDecimal_decimal]
    rfl
  | negSucc n =>
    have hcons : text "-" ++ decimal (n + 1) = 0x2D :: decimal (n + 1) := rfl
    rw [signedDecimal, hcons, readSigned, if_pos List.head?_cons, List.tail_cons,
      readDecimal_decimal]
    rfl

theorem signedDecimal_comma (n : Int) : ∀ b ∈ signedDecimal n, b ≠ 0x2C := by
  rintro b hb rfl
  rcases mem_signedDecimal hb with h | ⟨hlow, -⟩
  · exact absurd h (by decide)
  · exact absurd hlow (by decide)

theorem readNumber_signedDecimal (n : Int) (rest : Bytes) :
    readNumber (signedDecimal n ++ 0x2C :: rest) = (n, 0x2C :: rest) := by
  have hall : ∀ b ∈ signedDecimal n, decide (b ≠ 0x2C) = true := fun b hb =>
    decide_eq_true (signedDecimal_comma n b hb)
  rw [readNumber, List.takeWhile_append_of_pos hall, List.dropWhile_append_of_pos hall,
    List.takeWhile_cons_of_neg (by decide), List.dropWhile_cons_of_neg (by decide), List.append_nil,
    readSigned_signedDecimal]

theorem nibbleOf_hexNibble : ∀ n < 16, nibbleOf (Json.hexNibble n) = n := by decide +kernel

theorem unescapeOne_escapeByte (b : UInt8) (rest : Bytes) :
    unescapeOne (Json.escapeByte b ++ rest) = some (b, rest) := by
  unfold Json.escapeByte
  split_ifs with h₁ h₂ h₃ h₄ h₅ h₆ h₇ h₈
  · rw [h₁]; rfl
  · rw [h₂]; rfl
  · rw [h₃]; rfl
  · rw [h₄]; rfl
  · rw [h₅]; rfl
  · rw [h₆]; rfl
  · rw [h₇]; rfl
  · have hb : b.toNat < 32 := h₈
    show some (UInt8.ofNat (16 * nibbleOf (Json.hexNibble (b.toNat / 16)) +
      nibbleOf (Json.hexNibble (b.toNat % 16))), rest) = _
    rw [nibbleOf_hexNibble _ (by omega), nibbleOf_hexNibble _ (by omega), Nat.div_add_mod,
      UInt8.ofNat_toNat]
  · show (if b ≠ 0x5C then some (b, rest) else _) = _
    rw [if_pos h₂]

theorem escapeByte_head (b : UInt8) (rest : Bytes) :
    (Json.escapeByte b ++ rest).head? ≠ some 0x22 := by
  unfold Json.escapeByte
  split_ifs with h₁ h₂ h₃ h₄ h₅ h₆ h₇ h₈
  all_goals first
    | exact fun h => absurd (Option.some.inj h) (by decide)
    | exact fun h => h₁ (Option.some.inj h)

theorem readString_escape (s rest : Bytes) {fuel : Nat} (h : s.length < fuel) :
    readString fuel (Json.escape s ++ 0x22 :: rest) = some (s, rest) := by
  induction s generalizing fuel with
  | nil =>
    obtain ⟨fuel, rfl⟩ := Nat.exists_eq_succ_of_ne_zero (by omega : fuel ≠ 0)
    rfl
  | cons b s ih =>
    obtain ⟨fuel, rfl⟩ := Nat.exists_eq_succ_of_ne_zero (by omega : fuel ≠ 0)
    have hsplit : Json.escape (b :: s) ++ 0x22 :: rest = Json.escapeByte b ++
        (Json.escape s ++ 0x22 :: rest) := by
      rw [Json.escape, List.flatMap_cons, List.append_assoc]
      rfl
    rw [hsplit, readString, if_neg (escapeByte_head b _), unescapeOne_escapeByte]
    simp only [ih (by simpa using h), Option.map_some]

/-- A reader of the texts that checkpoints have. -/
def readCheckpoint (t : Bytes) : Option SqlJson :=
  let covered := readNumber (t.drop (text "\x7b\"covered_sequence\":").length)
  let revision := readNumber (covered.2.drop (text ",\"revision\":").length)
  (readString t.length (revision.2.drop (text ",\"summary\":\"").length)).map fun found =>
    checkpointValue ⟨covered.1, revision.1, found.1⟩

theorem escape_length_ge (s : Bytes) : s.length ≤ (Json.escape s).length := by
  induction s with
  | nil => exact Nat.zero_le _
  | cons b s ih =>
    have hne : (Json.escapeByte b).length ≠ 0 := by
      intro h
      have hone := unescapeOne_escapeByte b []
      rw [List.length_eq_zero_iff.mp h] at hone
      cases hone
    rw [Json.escape, List.flatMap_cons, List.length_append, List.length_cons]
    have htail : (s.flatMap Json.escapeByte).length = (Json.escape s).length := rfl
    omega

theorem readCheckpoint_dump (c : WorkingContext) :
    readCheckpoint (dumpCheckpoint c) = some (checkpointValue c) := by
  -- every fixed piece after the first begins with the comma that ends the number before it
  have hsummary : text ",\"summary\":" ++ Json.dumpString c.summary ++ text "\x7d" =
      text ",\"summary\":\"" ++ (Json.escape c.summary ++ 0x22 :: text "\x7d") := by
    simp only [Json.dumpString, List.append_assoc, List.cons_append, List.nil_append]
    rfl
  have hfuel : c.summary.length < (dumpCheckpoint c).length := by
    have hescape := escape_length_ge c.summary
    simp only [dumpCheckpoint, Json.dumpString, List.length_append, List.length_cons,
      List.length_nil]
    omega
  unfold readCheckpoint
  have hfirst : (dumpCheckpoint c).drop (text "\x7b\"covered_sequence\":").length =
      signedDecimal c.coveredSequence ++ 0x2C ::
        (text "\"revision\":" ++ signedDecimal c.revision ++
        0x2C :: (text "\"summary\":\"" ++ (Json.escape c.summary ++ 0x22 :: text "\x7d"))) := by
    rw [dumpCheckpoint, hsummary, List.append_assoc, List.drop_left]
    rfl
  rw [hfirst, readNumber_signedDecimal]
  have hsecond : (0x2C :: (text "\"revision\":" ++ signedDecimal c.revision ++
        0x2C :: (text "\"summary\":\"" ++ (Json.escape c.summary ++ 0x22 :: text "\x7d"))) :
          Bytes).drop
      (text ",\"revision\":").length = signedDecimal c.revision ++
        0x2C :: (text "\"summary\":\"" ++ (Json.escape c.summary ++ 0x22 :: text "\x7d")) := by
    rw [List.append_assoc]
    rfl
  dsimp only
  rw [hsecond, readNumber_signedDecimal]
  have hthird : (0x2C :: (text "\"summary\":\"" ++ (Json.escape c.summary ++ 0x22 :: text "\x7d")) :
    Bytes).drop
      (text ",\"summary\":\"").length = Json.escape c.summary ++ 0x22 :: text "\x7d" := rfl
  dsimp only
  rw [hthird, readString_escape _ _ hfuel]
  rfl

/-- There is such a reading. -/
def checkpointReader : JsonReader := ⟨readCheckpoint, fun c _ => readCheckpoint_dump c⟩

end Orangutan.Storage
