import Orangutan.Storage.JsonText

/-!
# Indented JSON text

The journal is written with two blanks for each level. What is written this way is read back as the
value; the reader of other texts is a parameter.
-/

namespace Orangutan.Telegram

set_option autoImplicit false

open Orangutan.Core Orangutan.Core.Str Orangutan.Storage

/-- `nlohmann::json`. -/
abbrev Value := SqlJson

namespace Value

/-- The break before an element at some depth. -/
def newline (indent : Nat) : Bytes := 0x0A :: List.replicate indent 0x20

mutual

/-- `dump(2)` of a value inside so many blanks. -/
def pretty (indent : Nat) : Value → Bytes
  | .null => text "null"
  | .boolean true => text "true"
  | .boolean false => text "false"
  | .integer n => signedDecimal n
  | .real literal => literal
  | .text s => Json.dumpString s
  | .array [] => text "[]"
  | .array items => 0x5B :: ((prettyItems (indent + 2) items).tail ++ (newline indent ++ [0x5D]))
  | .object [] => text "\x7b\x7d"
  | .object fields => 0x7B ::
      ((prettyFields (indent + 2) fields).tail ++ (newline indent ++ [0x7D]))

/-- The elements, each behind a comma; the caller drops the first one. -/
def prettyItems (indent : Nat) : List Value → Bytes
  | [] => []
  | item :: rest => 0x2C :: (newline indent ++ (pretty indent item ++ prettyItems indent rest))

def prettyFields (indent : Nat) : List (Bytes × Value) → Bytes
  | [] => []
  | (key, value) :: rest =>
    0x2C :: (newline indent ++
      (Json.dumpString key ++ (text ": " ++ (pretty indent value ++ prettyFields indent rest))))

end

mutual

/-- The bytes that a value takes in the text. -/
def size (indent : Nat) : Value → Nat
  | .null => 4
  | .boolean true => 4
  | .boolean false => 5
  | .integer n => (signedDecimal n).length
  | .real literal => literal.length
  | .text s => (Json.escape s).length + 2
  | .array [] => 2
  | .array items => sizeItems (indent + 2) items + indent + 2
  | .object [] => 2
  | .object fields => sizeFields (indent + 2) fields + indent + 2

/-- An element takes a comma and a break besides. -/
def sizeItems (indent : Nat) : List Value → Nat
  | [] => 0
  | item :: rest => size indent item + indent + 2 + sizeItems indent rest

def sizeFields (indent : Nat) : List (Bytes × Value) → Nat
  | [] => 0
  | (key, value) :: rest => (Json.escape key).length + size indent value + indent + 6 +
      sizeFields indent rest

end

theorem newline_length (indent : Nat) : (newline indent).length = indent + 1 := by
  rw [newline, List.length_cons, List.length_replicate]

theorem dumpString_length (s : Bytes) :
    (Json.dumpString s).length = (Json.escape s).length + 2 := by
  rw [Json.dumpString, List.length_cons, List.length_append, List.length_singleton]

theorem sizeItems_pos (indent : Nat) (item : Value) (rest : List Value) :
    0 < sizeItems indent (item :: rest) := by
  rw [sizeItems]
  omega

theorem sizeFields_pos (indent : Nat) (field : Bytes × Value) (rest : List (Bytes × Value)) :
    0 < sizeFields indent (field :: rest) := by
  rw [sizeFields]
  omega

theorem size_object (indent : Nat) (field : Bytes × Value) (rest : List (Bytes × Value)) :
    size indent (.object (field :: rest)) = sizeFields (indent + 2) (field :: rest) +
      indent + 2 := by
  rw [size]
  exact fun h => by cases h

mutual

theorem pretty_length : ∀ (v : Value) (indent : Nat), (pretty indent v).length = size indent v
  | .null, _ => rfl
  | .boolean true, _ => rfl
  | .boolean false, _ => rfl
  | .integer _, _ => rfl
  | .real _, _ => rfl
  | .text s, _ => by rw [pretty, size, dumpString_length]
  | .array [], _ => rfl
  | .array (item :: rest), indent => by
    have hitems := prettyItems_length (item :: rest) (indent + 2)
    have hpos := sizeItems_pos (indent + 2) item rest
    rw [pretty, size, List.length_cons, List.length_append, List.length_tail, List.length_append,
      List.length_singleton, newline_length, hitems]
    · omega
    · exact fun h => by cases h
    · exact fun h => by cases h
  | .object [], _ => rfl
  | .object (field :: rest), indent => by
    have hfields := prettyFields_length (field :: rest) (indent + 2)
    have hpos := sizeFields_pos (indent + 2) field rest
    rw [pretty, size_object, List.length_cons, List.length_append, List.length_tail,
      List.length_append, List.length_singleton, newline_length, hfields]
    · omega
    · exact fun h => by cases h

theorem prettyItems_length : ∀ (items : List Value) (indent : Nat),
    (prettyItems indent items).length = sizeItems indent items
  | [], _ => rfl
  | item :: rest, indent => by
    have hitem := pretty_length item indent
    have hrest := prettyItems_length rest indent
    rw [prettyItems, sizeItems, List.length_cons, List.length_append, List.length_append,
      newline_length, hitem, hrest]
    omega

theorem prettyFields_length :
    ∀ (fields : List (Bytes × Value)) (indent : Nat),
      (prettyFields indent fields).length = sizeFields indent fields
  | [], _ => rfl
  | (key, value) :: rest, indent => by
    have hvalue := pretty_length value indent
    have hrest := prettyFields_length rest indent
    have hcolon : (text ": ").length = 2 := rfl
    rw [prettyFields, sizeFields, List.length_cons, List.length_append, List.length_append,
      List.length_append, List.length_append, newline_length, dumpString_length, hcolon,
      hvalue, hrest]
    omega

end

def isNumberByte (b : UInt8) : Bool := isDigit b || b == 0x2D || b == 0x2B || b == 0x2E || b == 0x65

/-- The bytes that an integer does not have. -/
def isRealByte (b : UInt8) : Bool := b == 0x2E || b == 0x65

/-- The text of a finite `double`: it has a point or an exponent. -/
def isRealText (literal : Bytes) : Bool := literal.all isNumberByte && literal.any isRealByte

mutual

/-- What the parser can return: an integer has 64 bits, a string is well formed, and an object is
ordered by its keys. -/
def Parsed : Value → Prop
  | .null => True
  | .boolean _ => True
  | .integer n => -2 ^ 63 ≤ n ∧ n < 2 ^ 64
  | .real literal => isRealText literal = true
  | .text s => isValidUtf8 s = true
  | .array items => ParsedItems items
  | .object fields => (fields.map (·.1)).Pairwise (· < ·) ∧ ParsedFields fields

def ParsedItems : List Value → Prop
  | [] => True
  | item :: rest => Parsed item ∧ ParsedItems rest

def ParsedFields : List (Bytes × Value) → Prop
  | [] => True
  | (key, value) :: rest => isValidUtf8 key = true ∧ Parsed value ∧ ParsedFields rest

end

/-- Blanks between tokens. -/
def skip (t : Bytes) : Bytes := t.dropWhile fun b => b == 0x20 || b == 0x0A

def readNumber (token : Bytes) : Value :=
  if token.any isRealByte then .real token else .integer (readSigned token)

mutual

/-- A value at the beginning of the text, with what follows it. -/
def readValue : Nat → Bytes → Option (Value × Bytes)
  | 0, _ => none
  | fuel + 1, t =>
    if t.head? = some 0x22 then (readString t.length t.tail).map fun found =>
      (.text found.1, found.2)
    else if t.head? = some 0x5B then
      if (skip t.tail).head? = some 0x5D then some (.array [], (skip t.tail).tail)
      else (readItems fuel t.tail).map fun found => (.array found.1, found.2)
    else if t.head? = some 0x7B then
      if (skip t.tail).head? = some 0x7D then some (.object [], (skip t.tail).tail)
      else (readFields fuel t.tail).map fun found => (.object found.1, found.2)
    else if t.head? = some 0x6E then some (.null, t.drop 4)
    else if t.head? = some 0x74 then some (.boolean true, t.drop 4)
    else if t.head? = some 0x66 then some (.boolean false, t.drop 5)
    else some (readNumber (t.takeWhile isNumberByte), t.dropWhile isNumberByte)

/-- The elements up to the bracket that closes them. -/
def readItems : Nat → Bytes → Option (List Value × Bytes)
  | 0, _ => none
  | fuel + 1, t =>
    match readValue fuel (skip t) with
    | none => none
    | some (item, rest) =>
      if (skip rest).head? = some 0x2C then
        (readItems fuel (skip rest).tail).map fun found => (item :: found.1, found.2)
      else some ([item], (skip rest).tail)

def readFields : Nat → Bytes → Option (List (Bytes × Value) × Bytes)
  | 0, _ => none
  | fuel + 1, t =>
    match readString (skip t).length (skip t).tail with
    | none => none
    | some (key, rest) =>
      match readValue fuel (skip rest.tail) with
      | none => none
      | some (value, rest) =>
        if (skip rest).head? = some 0x2C then
          (readFields fuel (skip rest).tail).map fun found => ((key, value) :: found.1, found.2)
        else some ([(key, value)], (skip rest).tail)

end

theorem skip_newline (indent : Nat) (t : Bytes) : skip (newline indent ++ t) = skip t := by
  have hblank : ∀ b ∈ newline indent, (b == 0x20 || b == 0x0A) = true := by
    intro b hb
    rcases List.mem_cons.mp hb with rfl | hb
    · rfl
    · rw [List.eq_of_mem_replicate hb]
      rfl
  exact List.dropWhile_append_of_pos hblank

theorem skip_cons {b : UInt8} (t : Bytes) (hb : (b == 0x20 || b == 0x0A) = false) :
    skip (b :: t) = b :: t := by
  rw [skip, List.dropWhile_cons, if_neg (by simp only [hb, Bool.false_eq_true, not_false_eq_true])]

/-- A text behind a value: no number continues into it. -/
def Stops (rest : Bytes) : Prop := ∀ b, rest.head? = some b → isNumberByte b = false

theorem stops_cons {b : UInt8} (h : isNumberByte b = false) (rest : Bytes) : Stops (b :: rest) := by
  intro c hc
  obtain rfl := Option.some.inj hc
  exact h

theorem isNumberByte_signedDecimal (n : Int) : ∀ b ∈ signedDecimal n, isNumberByte b = true ∧
    isRealByte b = false := by
  intro b hb
  have hdigit : isDigit b = true → isNumberByte b = true ∧ isRealByte b = false := by
    intro h
    refine ⟨by rw [isNumberByte, h]; rfl, ?_⟩
    by_contra hreal
    rw [Bool.not_eq_false, isRealByte, Bool.or_eq_true, beq_iff_eq, beq_iff_eq] at hreal
    rcases hreal with rfl | rfl
    · exact absurd h (by decide)
    · exact absurd h (by decide)
  cases n with
  | ofNat n => exact hdigit (isDigit_decimal n b hb)
  | negSucc n =>
    rcases List.mem_append.mp hb with hb | hb
    · rw [List.mem_singleton.mp hb]
      exact ⟨rfl, rfl⟩
    · exact hdigit (isDigit_decimal (n + 1) b hb)

theorem signedDecimal_ne_nil (n : Int) : signedDecimal n ≠ [] := by
  cases n with
  | ofNat n => exact decimal_ne_nil n
  | negSucc n => exact fun h => by cases h

/-- The texts of numbers. -/
structure NumberText (t : Bytes) : Prop where
  ne_nil : t ≠ []
  bytes : ∀ b ∈ t, isNumberByte b = true

theorem numberText_signedDecimal (n : Int) : NumberText (signedDecimal n) :=
  ⟨signedDecimal_ne_nil n, fun b hb => (isNumberByte_signedDecimal n b hb).1⟩

theorem numberText_real {literal : Bytes} (h : isRealText literal = true) : NumberText literal := by
  rw [isRealText, Bool.and_eq_true] at h
  obtain ⟨hall, hany⟩ := h
  refine ⟨?_, List.all_eq_true.mp hall⟩
  rintro rfl
  cases hany

theorem readNumber_signedDecimal (n : Int) : readNumber (signedDecimal n) = .integer n := by
  have hany : (signedDecimal n).any isRealByte = false := by
    rw [List.any_eq_false]
    intro b hb
    rw [(isNumberByte_signedDecimal n b hb).2]
    decide
  rw [readNumber, hany, if_neg (by decide), readSigned_signedDecimal]

theorem readNumber_real {literal : Bytes} (h : isRealText literal = true) :
    readNumber literal = .real literal := by
  rw [isRealText, Bool.and_eq_true] at h
  rw [readNumber, if_pos h.2]

theorem readValue_number {t : Bytes} (ht : NumberText t) (fuel : Nat) {rest : Bytes}
    (h : Stops rest) :
    readValue (fuel + 1) (t ++ rest) = some (readNumber t, rest) := by
  have hhead : ∀ b : UInt8, isNumberByte b = false → (t ++ rest).head? ≠ some b := by
    intro b hb hsome
    rw [List.head?_append_of_ne_nil _ ht.ne_nil] at hsome
    rw [ht.bytes b (List.mem_of_head? hsome)] at hb
    cases hb
  have htake : (t ++ rest).takeWhile isNumberByte = t := by
    rw [List.takeWhile_append_of_pos ht.bytes]
    cases rest with
    | nil => exact List.append_nil _
    | cons b rest => rw [List.takeWhile_cons_of_neg (by rw [h b rfl]; decide), List.append_nil]
  have hdrop : (t ++ rest).dropWhile isNumberByte = rest := by
    rw [List.dropWhile_append_of_pos ht.bytes]
    cases rest with
    | nil => rfl
    | cons b rest => rw [List.dropWhile_cons_of_neg (by rw [h b rfl]; decide)]
  rw [readValue, if_neg (hhead _ (by decide)), if_neg (hhead _ (by decide)),
    if_neg (hhead _ (by decide)), if_neg (hhead _ (by decide)), if_neg (hhead _ (by decide)),
    if_neg (hhead _ (by decide)), htake, hdrop]

/-- The first byte of a value is neither a blank nor a bracket that closes. -/
def Opens (b : UInt8) : Prop := (b == 0x20 || b == 0x0A) = false ∧ b ≠ 0x5D ∧ b ≠ 0x7D

theorem opens_number {b : UInt8} (h : isNumberByte b = true) : Opens b := by
  refine ⟨?_, ?_, ?_⟩
  · by_contra hblank
    rw [Bool.not_eq_false, Bool.or_eq_true, beq_iff_eq, beq_iff_eq] at hblank
    rcases hblank with rfl | rfl
    · exact absurd h (by decide)
    · exact absurd h (by decide)
  · rintro rfl
    exact absurd h (by decide)
  · rintro rfl
    exact absurd h (by decide)

theorem numberText_head {t : Bytes} (ht : NumberText t) : ∃ b u, t = b :: u ∧ Opens b := by
  cases t with
  | nil => exact absurd rfl ht.ne_nil
  | cons b u => exact ⟨b, u, rfl, opens_number (ht.bytes b List.mem_cons_self)⟩

theorem pretty_head {v : Value} (hv : Parsed v) (indent : Nat) : ∃ b u, pretty indent v = b :: u ∧
    Opens b := by
  unfold Opens
  cases v with
  | null => exact ⟨_, _, rfl, by decide⟩
  | boolean b => cases b <;> exact ⟨_, _, rfl, by decide⟩
  | integer n => exact numberText_head (numberText_signedDecimal n)
  | real literal => exact numberText_head (numberText_real hv)
  | text s => exact ⟨0x22, _, rfl, by decide⟩
  | array items => cases items <;> exact ⟨0x5B, _, rfl, by decide⟩
  | object fields => cases fields <;> exact ⟨0x7B, _, rfl, by decide⟩

theorem size_pos {v : Value} (hv : Parsed v) (indent : Nat) : 0 < size indent v := by
  obtain ⟨b, u, h, -⟩ := pretty_head hv indent
  rw [← pretty_length, h]
  exact Nat.succ_pos _

/-- The blanks before a value are skipped, and it does not close its list. -/
theorem skip_pretty {v : Value} (hv : Parsed v) (breaks indent : Nat) (rest : Bytes) :
    skip (newline breaks ++ (pretty indent v ++ rest)) = pretty indent v ++ rest ∧
      (pretty indent v ++ rest).head? ≠ some 0x5D := by
  obtain ⟨b, u, h, hblank, hbracket, -⟩ := pretty_head hv indent
  rw [skip_newline, h, List.cons_append]
  exact ⟨skip_cons _ hblank, fun h => hbracket (Option.some.inj h)⟩

mutual

theorem readValue_pretty : ∀ (v : Value) (indent fuel : Nat) (rest : Bytes), Parsed v →
    size indent v ≤ fuel → Stops rest →
    readValue fuel (pretty indent v ++ rest) = some (v, rest)
  | v, indent, 0, _, hv, hfuel, _ => by
    have hpos := size_pos hv indent
    omega
  | .null, _, fuel + 1, rest, _, _, _ => rfl
  | .boolean true, _, fuel + 1, rest, _, _, _ => rfl
  | .boolean false, _, fuel + 1, rest, _, _, _ => rfl
  | .integer n, _, fuel + 1, rest, _, _, hstops => by
    rw [pretty, readValue_number (numberText_signedDecimal n) fuel hstops, readNumber_signedDecimal]
  | .real literal, _, fuel + 1, rest, hv, _, hstops => by
    rw [pretty, readValue_number (numberText_real hv) fuel hstops, readNumber_real hv]
  | .text s, _, fuel + 1, rest, _, _, _ => by
    have hread := readString_dump s rest
    rw [pretty, readValue, if_pos (by rfl), hread]
    rfl
  | .array [], _, fuel + 1, rest, _, _, _ => rfl
  | .array (item :: items), indent, fuel + 1, rest, hv, hfuel, _ => by
    have hlength : sizeItems (indent + 2) (item :: items) ≤ fuel := by
      rw [size] at hfuel
      · omega
      · exact fun h => by cases h
    have hread := readItems_pretty item items (indent + 2) indent fuel rest hv hlength
    obtain ⟨hskip, hopens⟩ := skip_pretty hv.1 (indent + 2) (indent + 2)
      (prettyItems (indent + 2) items ++ (newline indent ++ 0x5D :: rest))
    have htext : pretty indent (.array (item :: items)) ++ rest =
        0x5B :: ((prettyItems (indent + 2) (item :: items)).tail ++
          (newline indent ++ 0x5D :: rest)) := by
      rw [pretty]
      · simp only [List.cons_append, List.append_assoc, List.nil_append]
      · exact fun h => by cases h
    have hitems : (prettyItems (indent + 2) (item :: items)).tail ++
      (newline indent ++ 0x5D :: rest) =
        newline (indent + 2) ++ (pretty (indent + 2) item ++
          (prettyItems (indent + 2) items ++ (newline indent ++ 0x5D :: rest))) := by
      rw [prettyItems, List.tail_cons]
      simp only [List.append_assoc]
    rw [htext, readValue, List.head?_cons, List.tail_cons, if_neg (by decide), if_pos rfl, hitems,
      hskip, if_neg hopens, ← hitems, hread]
    rfl
  | .object [], _, fuel + 1, rest, _, _, _ => rfl
  | .object ((key, value) :: fields), indent, fuel + 1, rest, hv, hfuel, _ => by
    have hlength : sizeFields (indent + 2) ((key, value) :: fields) ≤ fuel := by
      rw [size_object] at hfuel
      omega
    have hread := readFields_pretty key value fields (indent + 2) indent fuel rest hv.2 hlength
    have htext : pretty indent (.object ((key, value) :: fields)) ++ rest =
        0x7B :: ((prettyFields (indent + 2) ((key, value) :: fields)).tail ++
          (newline indent ++ 0x7D :: rest)) := by
      rw [pretty]
      · simp only [List.cons_append, List.append_assoc, List.nil_append]
      · exact fun h => by cases h
    have hskip :
      (skip ((prettyFields (indent + 2) ((key, value) :: fields)).tail ++
      (newline indent ++ 0x7D :: rest))).head? =
        some 0x22 := by
      rw [prettyFields, List.tail_cons, List.append_assoc, skip_newline, Json.dumpString,
        List.cons_append, List.cons_append, skip_cons _ (by decide), List.head?_cons]
    rw [htext, readValue, List.head?_cons, List.tail_cons, if_neg (by decide), if_neg (by decide),
      if_pos rfl, hskip, if_neg (by decide), hread]
    rfl
termination_by structural _ _ fuel => fuel

theorem readItems_pretty :
    ∀ (item : Value) (items : List Value) (indent close fuel : Nat) (rest : Bytes),
    ParsedItems (item :: items) → sizeItems indent (item :: items) ≤ fuel →
    readItems fuel ((prettyItems indent (item :: items)).tail ++ (newline close ++ 0x5D :: rest)) =
      some (item :: items, rest)
  | item, items, indent, _, 0, _, _, hfuel => by
    have hpos := sizeItems_pos indent item items
    omega
  | item, items, indent, close, fuel + 1, rest, hv, hfuel => by
    rw [sizeItems] at hfuel
    have hsplit : (prettyItems indent (item :: items)).tail ++ (newline close ++ 0x5D :: rest) =
        newline indent ++ (pretty indent item ++
          (prettyItems indent items ++ (newline close ++ 0x5D :: rest))) := by
      rw [prettyItems, List.tail_cons]
      simp only [List.append_assoc]
    obtain ⟨hskip, -⟩ := skip_pretty hv.1 indent indent
      (prettyItems indent items ++ (newline close ++ 0x5D :: rest))
    rw [hsplit, readItems, hskip]
    cases items with
    | nil =>
      have hitem := readValue_pretty item indent fuel (newline close ++ 0x5D :: rest) hv.1
        (by omega) (stops_cons (by decide) _)
      rw [prettyItems, List.nil_append, hitem]
      dsimp only
      rw [skip_newline, skip_cons _ (by decide), List.head?_cons, if_neg (by decide),
        List.tail_cons]
    | cons next items =>
      have hitem := readValue_pretty item indent fuel (prettyItems indent (next :: items) ++
        (newline close ++ 0x5D :: rest))
        hv.1 (by omega) (stops_cons (by decide) _)
      have hrest := readItems_pretty next items indent close fuel rest hv.2 (by omega)
      have hcomma : prettyItems indent (next :: items) =
        0x2C :: (prettyItems indent (next :: items)).tail := rfl
      rw [hitem]
      dsimp only
      rw [hcomma, List.cons_append, skip_cons _ (by decide), List.head?_cons, if_pos rfl,
        List.tail_cons, hrest]
      rfl
termination_by structural _ _ _ _ fuel => fuel

theorem readFields_pretty :
    ∀ (key : Bytes) (value : Value) (fields : List (Bytes × Value)) (indent close fuel : Nat)
    (rest : Bytes),
    ParsedFields ((key, value) :: fields) → sizeFields indent ((key, value) :: fields) ≤ fuel →
    readFields fuel ((prettyFields indent ((key, value) :: fields)).tail ++
      (newline close ++ 0x7D :: rest)) =
      some ((key, value) :: fields, rest)
  | key, value, fields, indent, _, 0, _, _, hfuel => by
    have hpos := sizeFields_pos indent (key, value) fields
    omega
  | key, value, fields, indent, close, fuel + 1, rest, hv, hfuel => by
    rw [sizeFields] at hfuel
    have hsplit : (prettyFields indent ((key, value) :: fields)).tail ++
      (newline close ++ 0x7D :: rest) =
        newline indent ++ (Json.dumpString key ++ (0x3A :: 0x20 :: (pretty indent value ++
          (prettyFields indent fields ++ (newline close ++ 0x7D :: rest))))) := by
      rw [prettyFields, List.tail_cons]
      simp only [List.append_assoc]
      rfl
    have hskip : ∀ t : Bytes, skip (newline indent ++ (Json.dumpString key ++ t)) =
        Json.dumpString key ++ t := by
      intro t
      rw [skip_newline, Json.dumpString, List.cons_append]
      exact skip_cons _ (by decide)
    have hvalueSkip : ∀ t : Bytes, skip (0x20 :: (pretty indent value ++ t)) =
        pretty indent value ++ t := by
      intro t
      obtain ⟨b, u, h, hblank, -⟩ := pretty_head hv.2.1 indent
      have hone : skip (0x20 :: (pretty indent value ++ t)) = skip (pretty indent value ++ t) := rfl
      rw [hone, h, List.cons_append]
      exact skip_cons _ hblank
    rw [hsplit, readFields, hskip, readString_dump]
    dsimp only
    rw [List.tail_cons, hvalueSkip]
    cases fields with
    | nil =>
      have hvalue := readValue_pretty value indent fuel (newline close ++ 0x7D :: rest) hv.2.1
        (by omega)
        (stops_cons (by decide) _)
      rw [prettyFields, List.nil_append, hvalue]
      dsimp only
      rw [skip_newline, skip_cons _ (by decide), List.head?_cons, if_neg (by decide),
        List.tail_cons]
    | cons next fields =>
      obtain ⟨nextKey, nextValue⟩ := next
      have hvalue := readValue_pretty value indent fuel
        (prettyFields indent ((nextKey, nextValue) :: fields) ++ (newline close ++ 0x7D :: rest))
          hv.2.1 (by omega)
        (stops_cons (by decide) _)
      have hrest := readFields_pretty nextKey nextValue fields indent close fuel rest hv.2.2
        (by omega)
      have hcomma : prettyFields indent ((nextKey, nextValue) :: fields) =
        0x2C :: (prettyFields indent ((nextKey, nextValue) :: fields)).tail := rfl
      rw [hvalue]
      dsimp only
      rw [hcomma, List.cons_append, skip_cons _ (by decide), List.head?_cons, if_pos rfl,
        List.tail_cons, hrest]
      rfl
termination_by structural _ _ _ _ _ fuel => fuel

end

end Value

/-- The parser of the library, of which only what it makes of indented text is known. -/
structure JsonParser where
  parse : Bytes → Option Value
  parse_pretty : ∀ v : Value, v.Parsed → parse (v.pretty 0 ++ [0x0A]) = some v

def readPretty (t : Bytes) : Option Value :=
  match Value.readValue t.length t with
  | some (v, rest) => if Value.skip rest = [] then some v else none
  | none => none

theorem readPretty_pretty (v : Value) (hv : v.Parsed) :
    readPretty (v.pretty 0 ++ [0x0A]) = some v := by
  have h := Value.readValue_pretty v 0 (v.pretty 0 ++ [0x0A]).length [0x0A] hv
    (by rw [List.length_append, Value.pretty_length]; exact Nat.le_add_right _ _)
      (Value.stops_cons (by decide) _)
  rw [readPretty, h]
  rfl

/-- There is such a parser. -/
def prettyParser : JsonParser := ⟨readPretty, readPretty_pretty⟩

end Orangutan.Telegram
