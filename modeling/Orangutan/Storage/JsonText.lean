import Orangutan.Storage.SqlJson

/-!
# JSON text read back

What the serializer writes is read as the value that was written. The reader of other texts
is a parameter.
-/

namespace Orangutan.Storage

set_option autoImplicit false

open Orangutan.Core Orangutan.Core.Str

namespace SqlJson

mutual

/-- The value of a text that the serializer wrote. -/
def ofJson : Json → SqlJson
  | .null => null
  | .bool b => boolean b
  | .num n => integer n
  | .str s => text s
  | .arr items => array (ofItems items)
  | .obj fields => object (ofFields fields)

def ofItems : List Json → List SqlJson
  | [] => []
  | item :: rest => ofJson item :: ofItems rest

def ofFields : List (Bytes × Json) → List (Bytes × SqlJson)
  | [] => []
  | (key, value) :: rest => (key, ofJson value) :: ofFields rest

end

theorem ofItems_eq_map (items : List Json) : ofItems items = items.map ofJson := by
  induction items with
  | nil => rfl
  | cons item rest ih => rw [ofItems, List.map_cons, ih]

end SqlJson

/-- Its numbers have 64 bits. -/
inductive Fits : Json → Prop
  | null : Fits .null
  | bool (b : Bool) : Fits (.bool b)
  | num {n : Nat} (hn : n < 2 ^ 64) : Fits (.num n)
  | str (s : Bytes) : Fits (.str s)
  | arr {items : List Json} (hitems : ∀ item ∈ items, Fits item) : Fits (.arr items)
  | obj {fields : List (Bytes × Json)} (hfields : ∀ field ∈ fields, Fits field.2) :
      Fits (.obj fields)

/-- The parser of the library, with the text of what it throws. Only what it makes of a
serialized value is known, and a larger number it reads as a double. -/
structure JsonParser where
  parse : Bytes → Except Bytes SqlJson
  parse_dump : ∀ j : Json, j.Strings (isValidUtf8 · = true) → Fits j →
    parse j.dump = .ok (.ofJson j)

def isDigit (b : UInt8) : Bool := 0x30 ≤ b && b ≤ 0x39

mutual

def readValue : Nat → Bytes → Option (SqlJson × Bytes)
  | 0, _ => none
  | fuel + 1, t =>
    if t.head? = some 0x22 then (readString t.length t.tail).map fun found =>
      (.text found.1, found.2)
    else if t.head? = some 0x5B then
      if t.tail.head? = some 0x5D then some (.array [], t.tail.tail)
      else (readItems fuel t.tail).map fun found => (.array found.1, found.2)
    else if t.head? = some 0x7B then
      if t.tail.head? = some 0x7D then some (.object [], t.tail.tail)
      else (readFields fuel t.tail).map fun found => (.object found.1, found.2)
    else if t.head? = some 0x6E then some (.null, t.drop 4)
    else if t.head? = some 0x74 then some (.boolean true, t.drop 4)
    else if t.head? = some 0x66 then some (.boolean false, t.drop 5)
    else some (.integer (readDecimal (t.takeWhile isDigit)), t.dropWhile isDigit)

/-- The elements up to the bracket that closes them. -/
def readItems : Nat → Bytes → Option (List SqlJson × Bytes)
  | 0, _ => none
  | fuel + 1, t =>
    match readValue fuel t with
    | none => none
    | some (item, rest) =>
      if rest.head? = some 0x2C then (readItems fuel rest.tail).map fun found =>
        (item :: found.1, found.2)
      else some ([item], rest.tail)

def readFields : Nat → Bytes → Option (List (Bytes × SqlJson) × Bytes)
  | 0, _ => none
  | fuel + 1, t =>
    match readString t.length t.tail with
    | none => none
    | some (key, rest) =>
      match readValue fuel rest.tail with
      | none => none
      | some (value, rest) =>
        if rest.head? = some 0x2C then
          (readFields fuel rest.tail).map fun found => ((key, value) :: found.1, found.2)
        else some ([(key, value)], rest.tail)

end

def readJson (t : Bytes) : Except Bytes SqlJson :=
  match readValue t.length t with
  | some (value, []) => .ok value
  | _ => .error (text "syntax error")

/-- A text behind a value: no digit continues it. -/
def Stops (rest : Bytes) : Prop := ∀ b, rest.head? = some b → isDigit b = false

theorem stops_nil : Stops [] := fun b h => by cases h

theorem stops_cons {b : UInt8} (h : isDigit b = false) (rest : Bytes) : Stops (b :: rest) := by
  intro c hc
  obtain rfl := Option.some.inj hc
  exact h

theorem isDigit_decimal (n : Nat) : ∀ b ∈ decimal n, isDigit b = true := by
  intro b hb
  obtain ⟨hlow, hhigh⟩ := decimal_digits n b hb
  rw [isDigit, Bool.and_eq_true, decide_eq_true_eq, decide_eq_true_eq]
  exact ⟨hlow, hhigh⟩

theorem decimal_ne_nil (n : Nat) : decimal n ≠ [] := by
  intro h
  exact Nat.toDigits_ne_nil (List.map_eq_nil_iff.mp h)

theorem readString_dump (s rest : Bytes) :
    readString (Json.dumpString s ++ rest).length (Json.dumpString s ++ rest).tail =
      some (s, rest) := by
  have hlength := escape_length_ge s
  have htail : (Json.dumpString s ++ rest).tail = Json.escape s ++ 0x22 :: rest := by
    rw [Json.dumpString, List.cons_append, List.tail_cons, List.append_assoc]
    rfl
  rw [htail]
  apply readString_escape
  simp only [Json.dumpString, List.length_append, List.length_cons]
  omega

/-- The first byte of a value is not one that closes or separates. -/
theorem dump_head (j : Json) : ∃ b t, j.dump = b :: t ∧ b ≠ 0x5D ∧ b ≠ 0x7D := by
  cases j with
  | null => exact ⟨_, _, rfl, by decide, by decide⟩
  | bool b => cases b <;> exact ⟨_, _, rfl, by decide, by decide⟩
  | num n =>
    rw [Json.dump]
    cases hdigits : decimal n with
    | nil => exact absurd hdigits (decimal_ne_nil n)
    | cons b t =>
      obtain ⟨-, hhigh⟩ := decimal_digits n b (hdigits ▸ List.mem_cons_self)
      refine ⟨b, t, rfl, ?_, ?_⟩ <;> rintro rfl <;> exact absurd hhigh (by decide)
  | str s => exact ⟨0x22, _, by rw [Json.dump]; rfl, by decide, by decide⟩
  | arr items => exact ⟨0x5B, _, by rw [Json.dump], by decide, by decide⟩
  | obj fields => exact ⟨0x7B, _, by rw [Json.dump], by decide, by decide⟩

theorem dump_pos (j : Json) : 0 < j.dump.length := by
  obtain ⟨b, t, h, -⟩ := dump_head j
  rw [h]
  exact Nat.succ_pos _

theorem dumpItems_head (item : Json) (items : List Json) :
    ∃ b t, Json.dumpItems (item :: items) = b :: t ∧ b ≠ 0x5D ∧ b ≠ 0x7D := by
  obtain ⟨b, t, h, hb⟩ := dump_head item
  cases items with
  | nil => exact ⟨b, t, by rw [Json.dumpItems, h], hb⟩
  | cons next items =>
    refine ⟨b, t ++ 0x2C :: Json.dumpItems (next :: items), ?_, hb⟩
    rw [Json.dumpItems, h]
    · rfl
    · exact fun h => by cases h

theorem dumpFields_head (key : Bytes) (value : Json) (fields : List (Bytes × Json)) :
    ∃ t, Json.dumpFields ((key, value) :: fields) = 0x22 :: t := by
  cases fields with
  | nil => exact ⟨_, by rw [Json.dumpFields]; rfl⟩
  | cons next fields =>
    refine ⟨(Json.escape key ++ [0x22]) ++ 0x3A ::
      (value.dump ++ 0x2C :: Json.dumpFields (next :: fields)), ?_⟩
    rw [Json.dumpFields]
    · rfl
    · exact fun h => by cases h

theorem readValue_decimal (n fuel : Nat) {rest : Bytes} (h : Stops rest) :
    readValue (fuel + 1) (decimal n ++ rest) = some (.integer n, rest) := by
  have hdigits := isDigit_decimal n
  have hhead : ∀ b : UInt8, isDigit b = false → (decimal n ++ rest).head? ≠ some b := by
    intro b hb hsome
    rw [List.head?_append_of_ne_nil _ (decimal_ne_nil n)] at hsome
    rw [hdigits b (List.mem_of_head? hsome)] at hb
    cases hb
  have htake : (decimal n ++ rest).takeWhile isDigit = decimal n := by
    rw [List.takeWhile_append_of_pos hdigits]
    cases rest with
    | nil => exact List.append_nil _
    | cons b rest => rw [List.takeWhile_cons_of_neg (by rw [h b rfl]; decide), List.append_nil]
  have hdrop : (decimal n ++ rest).dropWhile isDigit = rest := by
    rw [List.dropWhile_append_of_pos hdigits]
    cases rest with
    | nil => rfl
    | cons b rest => rw [List.dropWhile_cons_of_neg (by rw [h b rfl]; decide)]
  rw [readValue, if_neg (hhead _ (by decide)), if_neg (hhead _ (by decide)),
    if_neg (hhead _ (by decide)), if_neg (hhead _ (by decide)), if_neg (hhead _ (by decide)),
    if_neg (hhead _ (by decide)), htake, hdrop, readDecimal_decimal]

mutual

theorem readValue_dump : ∀ (j : Json) (fuel : Nat) (rest : Bytes), j.dump.length ≤ fuel →
    Stops rest →
    readValue fuel (j.dump ++ rest) = some (.ofJson j, rest)
  | j, 0, _, hfuel, _ => by
    have hpos := dump_pos j
    omega
  | .null, fuel + 1, rest, _, _ => by rw [Json.dump]; rfl
  | .bool true, fuel + 1, rest, _, _ => by rw [Json.dump]; rfl
  | .bool false, fuel + 1, rest, _, _ => by rw [Json.dump]; rfl
  | .num n, fuel + 1, rest, _, hstops => by
    rw [Json.dump]
    exact readValue_decimal n fuel hstops
  | .str s, fuel + 1, rest, _, _ => by
    have hread := readString_dump s rest
    rw [Json.dump, readValue, if_pos (by rfl), hread]
    rfl
  | .arr [], fuel + 1, rest, _, _ => by rw [Json.dump]; rfl
  | .arr (item :: items), fuel + 1, rest, hfuel, _ => by
    obtain ⟨b, t, hb, hne, -⟩ := dumpItems_head item items
    have hlength : (Json.dumpItems (item :: items)).length + 1 ≤ fuel := by
      rw [Json.dump, List.length_cons, List.length_append, List.length_singleton] at hfuel
      omega
    have hread := readItems_dump (item :: items) fuel rest hlength (List.cons_ne_nil _ _)
    have htail : ((0x5B :: (Json.dumpItems (item :: items) ++ [0x5D]) : Bytes) ++ rest).tail =
        Json.dumpItems (item :: items) ++ 0x5D :: rest := by
      rw [List.cons_append, List.tail_cons, List.append_assoc]
      rfl
    have hhead : ((0x5B :: (Json.dumpItems (item :: items) ++ [0x5D]) : Bytes) ++ rest).head? =
      some 0x5B := rfl
    rw [Json.dump, readValue, htail, hhead, if_neg (by decide), if_pos rfl, hread, hb,
      List.cons_append, List.head?_cons, if_neg (fun h => hne (Option.some.inj h))]
    rfl
  | .obj [], fuel + 1, rest, _, _ => by rw [Json.dump]; rfl
  | .obj ((key, value) :: fields), fuel + 1, rest, hfuel, _ => by
    have hlength : (Json.dumpFields ((key, value) :: fields)).length + 1 ≤ fuel := by
      rw [Json.dump, List.length_cons, List.length_append, List.length_singleton] at hfuel
      omega
    have hread := readFields_dump ((key, value) :: fields) fuel rest hlength (List.cons_ne_nil _ _)
    have htail : ((0x7B :: (Json.dumpFields ((key, value) :: fields) ++ [0x7D]) : Bytes) ++
      rest).tail =
        Json.dumpFields ((key, value) :: fields) ++ 0x7D :: rest := by
      rw [List.cons_append, List.tail_cons, List.append_assoc]
      rfl
    obtain ⟨t, ht⟩ := dumpFields_head key value fields
    have hhead : ((0x7B :: (Json.dumpFields ((key, value) :: fields) ++ [0x7D]) : Bytes) ++
      rest).head? =
      some 0x7B := rfl
    rw [Json.dump, readValue, htail, hhead, if_neg (by decide), if_neg (by decide), if_pos rfl,
      hread, ht, List.cons_append, List.head?_cons, if_neg (by decide)]
    rfl

theorem readItems_dump : ∀ (items : List Json) (fuel : Nat) (rest : Bytes),
    (Json.dumpItems items).length + 1 ≤ fuel →
    items ≠ [] → readItems fuel (Json.dumpItems items ++ 0x5D :: rest) =
      some (SqlJson.ofItems items, rest)
  | _, 0, _, hfuel, _ => absurd hfuel (by omega)
  | [], _, _, _, hne => absurd rfl hne
  | [item], fuel + 1, rest, hfuel, _ => by
    rw [Json.dumpItems] at hfuel
    have hitem := readValue_dump item fuel (0x5D :: rest) (by omega) (stops_cons (by decide) rest)
    rw [Json.dumpItems, readItems, hitem]
    rfl
  | item :: next :: items, fuel + 1, rest, hfuel, _ => by
    have hsplit : Json.dumpItems (item :: next :: items) = item.dump ++ 0x2C ::
        Json.dumpItems (next :: items) := by
      rw [Json.dumpItems]
      exact fun h => by cases h
    rw [hsplit, List.length_append, List.length_cons] at hfuel
    have hitem := readValue_dump item fuel
      (0x2C :: (Json.dumpItems (next :: items) ++ 0x5D :: rest)) (by omega)
      (stops_cons (by decide) _)
    have hrest := readItems_dump (next :: items) fuel rest (by have := dump_pos item; omega)
      (List.cons_ne_nil _ _)
    rw [hsplit, List.append_assoc, List.cons_append, readItems, hitem]
    dsimp only
    rw [if_pos (by rfl), List.tail_cons, hrest]
    rfl

theorem readFields_dump : ∀ (fields : List (Bytes × Json)) (fuel : Nat) (rest : Bytes),
    (Json.dumpFields fields).length + 1 ≤ fuel → fields ≠ [] →
    readFields fuel (Json.dumpFields fields ++ 0x7D :: rest) = some (SqlJson.ofFields fields, rest)
  | _, 0, _, hfuel, _ => absurd hfuel (by omega)
  | [], _, _, _, hne => absurd rfl hne
  | [(key, value)], fuel + 1, rest, hfuel, _ => by
    rw [Json.dumpFields, List.length_append, List.length_cons] at hfuel
    have hkey := readString_dump key (0x3A :: (value.dump ++ 0x7D :: rest))
    have hvalue := readValue_dump value fuel (0x7D :: rest) (by omega) (stops_cons (by decide) rest)
    rw [Json.dumpFields, List.append_assoc, List.cons_append, readFields, hkey]
    dsimp only
    rw [List.tail_cons, hvalue]
    rfl
  | (key, value) :: next :: fields, fuel + 1, rest, hfuel, _ => by
    have hsplit : Json.dumpFields ((key, value) :: next :: fields) =
        Json.dumpString key ++ 0x3A ::
          (value.dump ++ 0x2C :: Json.dumpFields (next :: fields)) := by
      rw [Json.dumpFields]
      exact fun h => by cases h
    rw [hsplit, List.length_append, List.length_cons, List.length_append, List.length_cons] at hfuel
    have hkey := readString_dump key
      (0x3A :: (value.dump ++ 0x2C :: (Json.dumpFields (next :: fields) ++ 0x7D :: rest)))
    have hvalue := readValue_dump value fuel
      (0x2C :: (Json.dumpFields (next :: fields) ++ 0x7D :: rest)) (by omega)
      (stops_cons (by decide) _)
    have hrest := readFields_dump (next :: fields) fuel rest (by omega) (List.cons_ne_nil _ _)
    rw [hsplit, List.append_assoc, List.cons_append, List.append_assoc, List.cons_append,
      readFields, hkey]
    dsimp only
    rw [List.tail_cons, hvalue]
    dsimp only
    rw [if_pos (by rfl), List.tail_cons, hrest]
    rfl

end

theorem readJson_dump (j : Json) : readJson j.dump = .ok (.ofJson j) := by
  have h := readValue_dump j j.dump.length [] (Nat.le_refl _) stops_nil
  rw [List.append_nil] at h
  rw [readJson, h]

/-- There is such a parser. -/
def serializedParser : JsonParser := ⟨readJson, fun j _ _ => readJson_dump j⟩

end Orangutan.Storage
